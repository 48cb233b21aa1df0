import HtmlTemplate.Template.Basic

/-!
# Which wrappers are open at a marker

`openBefore markers i` are the wrappers that are open before the marker with the
index `i`, read off the markers alone: the indices of their starts, the
innermost first. A wrapper start adds itself, a wrapper end takes off the
innermost one.

Results:
1. `openBefore_push`, `openBefore_closedBy`: what is open depends on the markers
   before and on their kinds only.
2. `start_of_mem_openBefore`, `tail_openBefore`: a wrapper that is open has started
   before, and around it are the wrappers that were open there. `pairwise_openBefore`: the
   innermost one has started last.
3. `openBefore_eq_of_unmarked`: where no marker opens or closes a wrapper, the
   same wrappers stay open.
4. `Ordered`, `Balanced`: the markers stand in the order of their positions, and
   each wrapper end and its start know of each other. Both are kept when a
   marker is added (`Ordered.push`, `Balanced.push_inner`,
   `Balanced.push_start`, `Balanced.push_end`).
5. `alike_closedBy`: markers to which the end of a wrapper is entered stay alike.
-/

namespace HtmlTemplate

variable {ω δ : Type}

/-- The open wrappers behind an action at the index `i`. -/
def Action.openAfter (i : Nat) (opened : List Nat) : Action ω δ → List Nat
  | .wrapperStart _ _ => i :: opened
  | .wrapperEnd _ => opened.tail
  | .plain _ => opened
  | .attributes _ _ => opened

/-- Whether the marker starts or ends a wrapper. -/
def Marker.boundsWrapper (m : Marker ω δ) : Bool :=
  match m.action with
  | .wrapperStart _ _ => true
  | .wrapperEnd _ => true
  | _ => false

/-- The indices of the wrapper starts that are open before the marker with the
index `i`, the innermost first. -/
def openBefore (markers : Array (Marker ω δ)) : Nat → List Nat
  | 0 => []
  | i + 1 =>
    match markers[i]? with
    | some m => m.action.openAfter i (openBefore markers i)
    | none => openBefore markers i

/-! ## 1. Changes of the markers -/

@[simp] theorem openBefore_zero (markers : Array (Marker ω δ)) : openBefore markers 0 = [] := rfl

theorem openBefore_succ {markers : Array (Marker ω δ)} {i : Nat} {m : Marker ω δ}
    (h : markers[i]? = some m) :
    openBefore markers (i + 1) = m.action.openAfter i (openBefore markers i) := by
  simp [openBefore, h]

/-- Markers that do the same at every index below `i` leave the same wrappers open. -/
theorem openBefore_congr {markers markers' : Array (Marker ω δ)} {i : Nat}
    (h : ∀ j, j < i → ∀ opened, markers[j]?.map (·.action.openAfter j opened) =
      markers'[j]?.map (·.action.openAfter j opened)) :
    openBefore markers i = openBefore markers' i := by
  induction i with
  | zero => rfl
  | succ i ih =>
    have hi := ih fun j hj => h j (Nat.lt_succ_of_lt hj)
    have hm := h i (Nat.lt_succ_self i) (openBefore markers' i)
    unfold openBefore
    rw [hi]
    cases hj : markers[i]? <;> cases hj' : markers'[i]? <;> simp_all

theorem openBefore_push (markers : Array (Marker ω δ)) (m : Marker ω δ) {i : Nat}
    (h : i ≤ markers.size) : openBefore (markers.push m) i = openBefore markers i := by
  apply openBefore_congr
  intro j hj opened
  rw [Array.getElem?_push_lt (Nat.lt_of_lt_of_le hj h)]
  simp [Nat.lt_of_lt_of_le hj h]

theorem openBefore_push_size (markers : Array (Marker ω δ)) (m : Marker ω δ) :
    openBefore (markers.push m) (markers.size + 1) =
      m.action.openAfter markers.size (openBefore markers markers.size) := by
  rw [openBefore_succ (m := m) (by simp), openBefore_push markers m (Nat.le_refl _)]

theorem openAfter_closedBy (m : Marker ω δ) (closing i : Nat) (opened : List Nat) :
    (m.closedBy closing).action.openAfter i opened = m.action.openAfter i opened := by
  unfold Marker.closedBy
  split
  · next h => simp [h, Action.openAfter]
  · rfl

/-- Entering the end of a wrapper into its start changes nothing about what is open. -/
theorem openBefore_closedBy (markers : Array (Marker ω δ)) (opening closing i : Nat) :
    openBefore (markers.modify opening (·.closedBy closing)) i = openBefore markers i := by
  apply openBefore_congr
  intro j _ opened
  rw [Array.getElem?_modify]
  split
  · cases markers[j]? <;> simp [openAfter_closedBy]
  · rfl

/-! ## 2. Open wrappers -/

/-- An open wrapper has a start, which stands before. -/
theorem start_of_mem_openBefore {markers : Array (Marker ω δ)} {i j : Nat}
    (h : j ∈ openBefore markers i) :
    j < i ∧ ∃ m run closing, markers[j]? = some m ∧ m.action = .wrapperStart run closing := by
  induction i with
  | zero => simp at h
  | succ i ih =>
    -- What is open before the marker `i` has started before it.
    have hold := fun h => (ih h).imp_left Nat.lt_succ_of_lt
    unfold openBefore at h
    split at h
    · next m hi =>
      cases hm : m.action with
      | wrapperStart run closing =>
        rw [hm] at h
        rcases List.mem_cons.mp h with rfl | h
        · exact ⟨Nat.lt_succ_self j, m, run, closing, hi, hm⟩
        · exact hold h
      | wrapperEnd opening =>
        rw [hm] at h
        exact hold (List.mem_of_mem_tail h)
      | plain run | attributes run element =>
        rw [hm] at h
        exact hold h
    · exact hold h

theorem lt_of_mem_openBefore {markers : Array (Marker ω δ)} {i j : Nat}
    (h : j ∈ openBefore markers i) : j < i :=
  (start_of_mem_openBefore h).1

/-- Around an open wrapper are the wrappers that were open at its start. -/
theorem tail_openBefore {markers : Array (Marker ω δ)} {i j : Nat} {inner outer : List Nat}
    (h : openBefore markers i = inner ++ j :: outer) : outer = openBefore markers j := by
  induction i generalizing inner with
  | zero => simp at h
  | succ i ih =>
    unfold openBefore at h
    split at h
    · next m _ =>
      cases hm : m.action with
      | wrapperStart run closing =>
        rw [hm] at h
        cases inner with
        | nil =>
          cases h
          rfl
        | cons k inner => exact ih (List.cons.inj h).2
      | wrapperEnd opening =>
        rw [hm] at h
        cases ho : openBefore markers i with
        | nil => simp [Action.openAfter, ho] at h
        | cons k opened =>
          rw [ho] at h
          exact ih (show openBefore markers i = k :: inner ++ j :: outer by
            rw [ho, List.cons_append, ← h]
            rfl)
      | plain run | attributes run element =>
        rw [hm] at h
        exact ih h
    · exact ih h

/-- The same for the innermost open wrapper. -/
theorem tail_openBefore_cons {markers : Array (Marker ω δ)} {i j : Nat} {outer : List Nat}
    (h : openBefore markers i = j :: outer) : outer = openBefore markers j :=
  tail_openBefore (h.trans (List.nil_append _).symm)

/-- The open wrappers stand in the order in which they are closed. -/
theorem pairwise_openBefore (markers : Array (Marker ω δ)) (i : Nat) :
    (openBefore markers i).Pairwise (· > ·) := by
  induction i using Nat.strongRecOn with
  | ind i ih =>
    cases h : openBefore markers i with
    | nil => exact .nil
    | cons j outer =>
      obtain rfl := tail_openBefore_cons h
      have hlt : j < i := lt_of_mem_openBefore (h ▸ List.mem_cons_self)
      exact .cons (fun k hk => lt_of_mem_openBefore hk) (ih j hlt)

/-- If the innermost open wrapper is the one started at `j`, the others are those
that were open at `j`. -/
theorem openBefore_of_head {markers : Array (Marker ω δ)} {i j : Nat}
    (h : (openBefore markers i).head? = some j) :
    openBefore markers i = j :: openBefore markers j := by
  cases ho : openBefore markers i with
  | nil => simp [ho] at h
  | cons k outer =>
    rw [ho] at h
    cases h
    rw [tail_openBefore_cons ho]

/-! ## 3. Other markers -/

theorem openAfter_of_not_boundsWrapper {m : Marker ω δ} (h : m.boundsWrapper = false) (i : Nat)
    (opened : List Nat) : m.action.openAfter i opened = opened := by
  unfold Marker.boundsWrapper at h
  cases hm : m.action <;> simp_all [Action.openAfter]

/-- Where no marker starts or ends a wrapper, the same wrappers stay open. -/
theorem openBefore_eq_of_unmarked {markers : Array (Marker ω δ)} {i j : Nat} (hij : i ≤ j)
    (h : ∀ k m, i ≤ k → k < j → markers[k]? = some m → m.boundsWrapper = false) :
    openBefore markers j = openBefore markers i := by
  induction hij with
  | refl => rfl
  | @step j hij ih =>
    have hj := ih fun k m hk hkj => h k m hk (Nat.lt_succ_of_lt hkj)
    rw [← hj]
    cases hm : markers[j]? with
    | none => simp [openBefore, hm]
    | some m =>
      rw [openBefore_succ hm, openAfter_of_not_boundsWrapper (h j m hij (Nat.lt_succ_self j) hm)]

/-! ## 4. Markers that fit together -/

theorem getElem?_push_eq_some {α : Type} {xs : Array α} {x y : α} {i : Nat}
    (h : (xs.push x)[i]? = some y) : xs[i]? = some y ∨ (i = xs.size ∧ y = x) := by
  rw [Array.getElem?_push] at h
  split at h
  · next hi =>
    cases h
    exact .inr ⟨hi, rfl⟩
  · exact .inl h

theorem getElem?_closedBy_eq_some {markers : Array (Marker ω δ)} {opening closing i : Nat}
    {m : Marker ω δ} (h : (markers.modify opening (·.closedBy closing))[i]? = some m) :
    ∃ n, markers[i]? = some n ∧ m = if opening = i then n.closedBy closing else n := by
  rw [Array.getElem?_modify] at h
  split at h
  · next hi =>
    obtain ⟨n, hn, rfl⟩ := Option.map_eq_some_iff.mp h
    exact ⟨n, hn, by rw [if_pos hi]⟩
  · next hi => exact ⟨m, h, by rw [if_neg hi]⟩

theorem action_closedBy_eq_wrapperEnd {m : Marker ω δ} {closing opening : Nat} :
    (m.closedBy closing).action = .wrapperEnd opening ↔ m.action = .wrapperEnd opening := by
  unfold Marker.closedBy
  split
  · next h => simp [h]
  · rfl

/-- A wrapper end stands where it stood when it is entered into its start. -/
theorem getElem?_closedBy_of_wrapperEnd {markers : Array (Marker ω δ)} {n : Marker ω δ}
    {j k : Nat} (h : markers[j]? = some n) (ha : n.action = .wrapperEnd k) (opening closing : Nat) :
    ∃ n', (markers.modify opening (·.closedBy closing))[j]? = some n' ∧
      n'.action = .wrapperEnd k := by
  rw [Array.getElem?_modify, h]
  split
  · exact ⟨_, rfl, action_closedBy_eq_wrapperEnd.mpr ha⟩
  · exact ⟨n, rfl, ha⟩

theorem action_closedBy_of_wrapperStart {m : Marker ω δ} {run : δ → WrapperRender ω Unit}
    {closing? : Option Nat} (h : m.action = .wrapperStart run closing?) (closing : Nat) :
    (m.closedBy closing).action = .wrapperStart run (some closing) := by
  simp [Marker.closedBy, h]

/-- The markers stand in the order of their positions, within `size` bytes. -/
structure Ordered (markers : Array (Marker ω δ)) (size : Nat) : Prop where
  position_le : ∀ (i : Nat) (m : Marker ω δ), markers[i]? = some m → m.position ≤ size
  position_mono : ∀ (i j : Nat) (m n : Marker ω δ), i ≤ j → markers[i]? = some m →
    markers[j]? = some n → m.position ≤ n.position

namespace Ordered

variable {markers : Array (Marker ω δ)} {size : Nat}

theorem mono {size' : Nat} (h : Ordered markers size) (hle : size ≤ size') :
    Ordered markers size' :=
  ⟨fun i m hm => Nat.le_trans (h.position_le i m hm) hle, h.position_mono⟩

theorem push (h : Ordered markers size) {m : Marker ω δ} (hm : m.position = size) :
    Ordered (markers.push m) size := by
  constructor
  · intro i n hn
    rcases getElem?_push_eq_some hn with hn | ⟨-, rfl⟩
    · exact h.position_le i n hn
    · exact Nat.le_of_eq hm
  · intro i j n n' hij hn hn'
    rcases getElem?_push_eq_some hn' with hn' | ⟨hj, rfl⟩
    · rcases getElem?_push_eq_some hn with hn | ⟨rfl, -⟩
      · exact h.position_mono i j n n' hij hn hn'
      · rw [Array.getElem?_eq_none hij] at hn'
        cases hn'
    · rw [hm]
      rcases getElem?_push_eq_some hn with hn | ⟨-, rfl⟩
      · exact h.position_le i n hn
      · exact Nat.le_of_eq hm

theorem closedBy (h : Ordered markers size) (opening closing : Nat) :
    Ordered (markers.modify opening (·.closedBy closing)) size := by
  have hpos : ∀ (i : Nat) (m : Marker ω δ),
      (markers.modify opening (·.closedBy closing))[i]? = some m →
        ∃ n : Marker ω δ, markers[i]? = some n ∧ m.position = n.position := by
    intro i m hm
    obtain ⟨n, hn, rfl⟩ := getElem?_closedBy_eq_some hm
    refine ⟨n, hn, ?_⟩
    split <;> simp
  constructor
  · intro i m hm
    obtain ⟨n, hn, hp⟩ := hpos i m hm
    rw [hp]
    exact h.position_le i n hn
  · intro i j m m' hij hm hm'
    obtain ⟨n, hn, hp⟩ := hpos i m hm
    obtain ⟨n', hn', hp'⟩ := hpos j m' hm'
    rw [hp, hp']
    exact h.position_mono i j n n' hij hn hn'

end Ordered

/-- A wrapper start is open at the end, or it knows the end that closes it. A
wrapper end closes the innermost wrapper that is open before it. -/
structure Balanced (markers : Array (Marker ω δ)) : Prop where
  start_closed : ∀ (i : Nat) (m : Marker ω δ) (run : δ → WrapperRender ω Unit)
    (closing : Option Nat), markers[i]? = some m → m.action = .wrapperStart run closing →
      (closing = none ∧ i ∈ openBefore markers markers.size) ∨
        ∃ (j : Nat) (n : Marker ω δ),
          closing = some j ∧ markers[j]? = some n ∧ n.action = .wrapperEnd i
  end_head : ∀ (i : Nat) (m : Marker ω δ) (opening : Nat), markers[i]? = some m →
    m.action = .wrapperEnd opening → (openBefore markers i).head? = some opening

namespace Balanced

variable {markers : Array (Marker ω δ)}

theorem empty : Balanced (#[] : Array (Marker ω δ)) :=
  ⟨fun i m run closing h => by simp at h, fun i m opening h => by simp at h⟩

theorem getElem?_push_of_some {m n : Marker ω δ} {i : Nat} (h : markers[i]? = some n) :
    (markers.push m)[i]? = some n := by
  obtain ⟨hi, -⟩ := Array.getElem?_eq_some_iff.mp h
  rw [Array.getElem?_push_lt hi, ← h, Array.getElem?_eq_getElem hi]

/-- What is left to show when a marker is pushed that is no wrapper end. -/
theorem push_of (h : Balanced markers) {m : Marker ω δ}
    (hend : ∀ opening, m.action ≠ .wrapperEnd opening)
    (hsub : ∀ i, i ∈ openBefore markers markers.size →
      i ∈ openBefore (markers.push m) (markers.size + 1))
    (hstart : ∀ run closing, m.action = .wrapperStart run closing → closing = none ∧
      markers.size ∈ openBefore (markers.push m) (markers.size + 1)) :
    Balanced (markers.push m) := by
  constructor
  · intro i n run closing hn ha
    rw [Array.size_push]
    rcases getElem?_push_eq_some hn with hn | ⟨rfl, rfl⟩
    · rcases h.start_closed i n run closing hn ha with ⟨hc, hi⟩ | ⟨j, e, hc, he, hea⟩
      · exact .inl ⟨hc, hsub i hi⟩
      · exact .inr ⟨j, e, hc, getElem?_push_of_some he, hea⟩
    · exact .inl (hstart run closing ha)
  · intro i n opening hn ha
    rcases getElem?_push_eq_some hn with hn | ⟨-, rfl⟩
    · obtain ⟨hi, -⟩ := Array.getElem?_eq_some_iff.mp hn
      rw [openBefore_push markers m (Nat.le_of_lt hi)]
      exact h.end_head i n opening hn ha
    · exact absurd ha (hend opening)

theorem push_inner (h : Balanced markers) {m : Marker ω δ} (hm : m.boundsWrapper = false) :
    Balanced (markers.push m) := by
  have hend : ∀ opening, m.action ≠ .wrapperEnd opening := by
    intro opening ha
    simp [Marker.boundsWrapper, ha] at hm
  refine h.push_of hend ?_ ?_
  · intro i hi
    rw [openBefore_push_size, openAfter_of_not_boundsWrapper hm]
    exact hi
  · intro run closing ha
    simp [Marker.boundsWrapper, ha] at hm

theorem push_start (h : Balanced markers) {m : Marker ω δ} {run : δ → WrapperRender ω Unit}
    (hm : m.action = .wrapperStart run none) : Balanced (markers.push m) := by
  refine h.push_of ?_ ?_ ?_
  · intro opening ha
    rw [hm] at ha
    cases ha
  · intro i hi
    rw [openBefore_push_size, hm]
    exact List.mem_cons_of_mem _ hi
  · intro run' closing ha
    rw [openBefore_push_size, hm]
    rw [hm] at ha
    cases ha
    exact ⟨rfl, List.mem_cons_self⟩

theorem push_end (h : Balanced markers) {m : Marker ω δ} {opening : Nat}
    (hm : m.action = .wrapperEnd opening)
    (ho : (openBefore markers markers.size).head? = some opening) :
    Balanced ((markers.push m).modify opening (·.closedBy markers.size)) := by
  have hcons := openBefore_of_head ho
  have hmem : opening ∈ openBefore markers markers.size := hcons ▸ List.mem_cons_self
  obtain ⟨hlt, n₁, run₁, c₁, hn₁, ha₁⟩ := start_of_mem_openBefore hmem
  have hne : opening ≠ markers.size := Nat.ne_of_lt hlt
  constructor
  · intro i n run closing hn ha
    obtain ⟨n₀, hn₀, rfl⟩ := getElem?_closedBy_eq_some hn
    rcases getElem?_push_eq_some hn₀ with hn₀ | ⟨rfl, rfl⟩
    · by_cases hi : opening = i
      -- The start of the wrapper that ends here knows of its end now.
      · subst hi
        rw [if_pos rfl] at ha
        rw [hn₀] at hn₁
        cases hn₁
        rw [action_closedBy_of_wrapperStart ha₁] at ha
        cases ha
        obtain ⟨e, he, hea⟩ :=
          getElem?_closedBy_of_wrapperEnd Array.getElem?_push_size hm opening markers.size
        exact .inr ⟨markers.size, e, rfl, he, hea⟩
      -- For any other start nothing has changed.
      · rw [if_neg hi] at ha
        rcases h.start_closed i n₀ run closing hn₀ ha with ⟨hc, hmem⟩ | ⟨j, e, hc, he, hea⟩
        · refine .inl ⟨hc, ?_⟩
          rw [Array.size_modify, Array.size_push, openBefore_closedBy, openBefore_push_size, hm,
            hcons]
          rw [hcons] at hmem
          exact (List.mem_cons.mp hmem).resolve_left fun h => hi h.symm
        · obtain ⟨e', he', hea'⟩ :=
            getElem?_closedBy_of_wrapperEnd (getElem?_push_of_some he) hea opening markers.size
          exact .inr ⟨j, e', hc, he', hea'⟩
    · rw [if_neg hne, hm] at ha
      cases ha
  · intro i n k hn ha
    rw [openBefore_closedBy]
    obtain ⟨n₀, hn₀, rfl⟩ := getElem?_closedBy_eq_some hn
    rcases getElem?_push_eq_some hn₀ with hn₀ | ⟨rfl, rfl⟩
    · obtain ⟨hi, -⟩ := Array.getElem?_eq_some_iff.mp hn₀
      rw [openBefore_push markers m (Nat.le_of_lt hi)]
      refine h.end_head i n₀ k hn₀ ?_
      split at ha
      · exact action_closedBy_eq_wrapperEnd.mp ha
      · exact ha
    · rw [if_neg hne, hm] at ha
      cases ha
      rw [openBefore_push markers n₀ (Nat.le_refl _)]
      exact ho

end Balanced

/-! ## 5. Markers in the same places -/

/-- The markers are the same but for what wrapper starts know of their ends. -/
structure Alike (markers markers' : Array (Marker ω δ)) : Prop where
  size_eq : markers'.size = markers.size
  marker : ∀ (i : Nat) (n : Marker ω δ), markers'[i]? = some n →
    ∃ m : Marker ω δ, markers[i]? = some m ∧ n.position = m.position ∧
      n.boundsWrapper = m.boundsWrapper ∧
        ∀ run element, n.action = .attributes run element → m.action = .attributes run element
  openBefore_eq : ∀ i, openBefore markers' i = openBefore markers i

theorem boundsWrapper_closedBy (m : Marker ω δ) (closing : Nat) :
    (m.closedBy closing).boundsWrapper = m.boundsWrapper := by
  cases hm : m.action <;> simp [Marker.closedBy, Marker.boundsWrapper, hm]

theorem action_of_closedBy_eq_attributes {m : Marker ω δ} {closing element : Nat}
    {run : δ → AttributeRender ω Unit} (h : (m.closedBy closing).action = .attributes run element) :
    m.action = .attributes run element := by
  cases hm : m.action <;> simp_all [Marker.closedBy]

theorem alike_closedBy (markers : Array (Marker ω δ)) (opening closing : Nat) :
    Alike markers (markers.modify opening (·.closedBy closing)) := by
  refine ⟨Array.size_modify, fun i n hn => ?_, openBefore_closedBy markers opening closing⟩
  obtain ⟨m, hm, rfl⟩ := getElem?_closedBy_eq_some hn
  refine ⟨m, hm, ?_⟩
  split
  · exact ⟨m.position_closedBy closing, boundsWrapper_closedBy m closing,
      fun _ _ => action_of_closedBy_eq_attributes⟩
  · exact ⟨rfl, rfl, fun _ _ h => h⟩

end HtmlTemplate
