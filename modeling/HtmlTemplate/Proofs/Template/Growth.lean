import HtmlTemplate.Proofs.Template.Nesting
import HtmlTemplate.Proofs.Template.Pieces

/-!
# How an assembly grows

Adding pieces only appends: literal bytes and markers that are there stay, but
for the end of a wrapper, which is entered into its start when it is met. So
what a piece has put into the template can be read off the finished template.

Results:
1. `Nested`: the markers of an assembly say which wrappers are open, and where
   each closed wrapper ends. Every edit keeps it (`Nested.edit`).
2. `Grows`: what later edits leave as it is (`Grows.edit`, `grows_of_foldlM`).
-/

namespace HtmlTemplate.Assembly

variable {ω δ : Type} {a b c : Assembly ω δ}

/-! ## 1. Nesting -/

theorem markers_closeWrapper (a : Assembly ω δ) (i : Nat) :
    ∃ m : Marker ω δ, m.action = .wrapperEnd i ∧ m.position = a.html.size ∧
      (a.closeWrapper i).markers = (a.markers.push m).modify i (·.closedBy a.markers.size) :=
  ⟨_, rfl, rfl, rfl⟩

/-- The indices of the open wrapper starts, the innermost first. -/
def keptWrappers (a : Assembly ω δ) : List Nat := a.openWrappers.filterMap id

/-- The markers agree with the open wrappers of the assembly. -/
structure Nested (a : Assembly ω δ) : Prop where
  ordered : Ordered a.markers a.html.size
  balanced : Balanced a.markers
  opened : openBefore a.markers a.markers.size = a.keptWrappers
  keptDepth : a.keptDepth = a.keptWrappers.length
  nesting_le : ∀ i, i ≤ a.markers.size → (openBefore a.markers i).length ≤ a.maxNesting

namespace Nested

/-- Only some parts of the assembly matter. -/
theorem congr (h : Nested a) (hm : b.markers = a.markers) (hk : b.keptWrappers = a.keptWrappers)
    (hd : b.keptDepth = a.keptDepth) (hn : b.maxNesting = a.maxNesting)
    (hs : a.html.size ≤ b.html.size) : Nested b := by
  refine ⟨?_, ?_, ?_, ?_, ?_⟩
  · rw [hm]
    exact h.ordered.mono hs
  · rw [hm]
    exact h.balanced
  · rw [hm, hk]
    exact h.opened
  · rw [hd, hk]
    exact h.keptDepth
  · rw [hm, hn]
    exact h.nesting_le

/-- The nesting of the markers before the last one is that of before. -/
theorem nesting_push (h : Nested a) {m : Marker ω δ} {max : Nat} (hmax : a.maxNesting ≤ max)
    (hlast : (m.action.openAfter a.markers.size a.keptWrappers).length ≤ max) (i : Nat)
    (hi : i ≤ a.markers.size + 1) : (openBefore (a.markers.push m) i).length ≤ max := by
  rcases Nat.lt_or_ge a.markers.size i with hlt | hle
  · have : i = a.markers.size + 1 := by omega
    subst this
    rw [openBefore_push_size, h.opened]
    exact hlast
  · rw [openBefore_push _ _ hle]
    exact Nat.le_trans (h.nesting_le i hle) hmax

theorem addMarker (h : Nested a) (name : String) {action : Action ω δ}
    (ha : ∀ m : Marker ω δ, m.action = action → m.boundsWrapper = false) :
    Nested (a.addMarker name action) := by
  have hb := ha { name := name, span := ⟨a.lastPosition, a.html.size⟩, action := action } rfl
  have hafter := openAfter_of_not_boundsWrapper hb a.markers.size a.keptWrappers
  refine ⟨h.ordered.push rfl, h.balanced.push_inner hb, ?_, h.keptDepth, ?_⟩
  · show openBefore (a.markers.push _) (a.markers.push _).size = a.keptWrappers
    rw [Array.size_push, openBefore_push_size, h.opened, hafter]
  · intro i hi
    refine h.nesting_push (Nat.le_refl _) ?_ i (by simpa [Assembly.addMarker] using hi)
    rw [hafter, ← h.opened]
    exact h.nesting_le _ (Nat.le_refl _)

theorem openWrapper (h : Nested a) (name : String) (run : δ → WrapperRender ω Unit) :
    Nested (a.openWrapper name run) := by
  refine ⟨h.ordered.push rfl, h.balanced.push_start rfl, ?_, ?_, ?_⟩
  · show openBefore (a.markers.push _) (a.markers.push _).size = _
    rw [Array.size_push, openBefore_push_size, h.opened]
    rfl
  · show a.keptDepth + 1 = (a.markers.size :: a.keptWrappers).length
    rw [h.keptDepth, List.length_cons]
  · intro i hi
    refine h.nesting_push (Nat.le_max_left _ _) ?_ i
      (by simpa [Assembly.openWrapper, Assembly.addMarker] using hi)
    show (a.markers.size :: a.keptWrappers).length ≤ max a.maxNesting (a.keptDepth + 1)
    rw [h.keptDepth, List.length_cons]
    exact Nat.le_max_right _ _

theorem closeWrapper (h : Nested a) {i : Nat} {rest : List (Option Nat)}
    (ho : a.openWrappers = some i :: rest) :
    Nested ({ a with openWrappers := rest }.closeWrapper i) := by
  have hkept : a.keptWrappers = i :: rest.filterMap id := by simp [keptWrappers, ho]
  have hhead : (openBefore a.markers a.markers.size).head? = some i := by
    rw [h.opened, hkept]
    rfl
  obtain ⟨m, hm, hp, hmarkers⟩ := markers_closeWrapper { a with openWrappers := rest } i
  -- The end takes off the innermost wrapper, in the markers as in the assembly.
  have hafter : m.action.openAfter a.markers.size a.keptWrappers = rest.filterMap id := by
    rw [hm, hkept]
    rfl
  refine ⟨?_, ?_, ?_, ?_, ?_⟩
  · rw [hmarkers]
    exact (h.ordered.push hp).closedBy _ _
  · rw [hmarkers]
    exact h.balanced.push_end hm hhead
  · rw [hmarkers, Array.size_modify, Array.size_push, openBefore_closedBy, openBefore_push_size,
      h.opened, hafter]
    rfl
  · show a.keptDepth - 1 = (rest.filterMap id).length
    rw [h.keptDepth, hkept]
    rfl
  · intro j hj
    rw [hmarkers, Array.size_modify, Array.size_push] at hj
    rw [hmarkers, openBefore_closedBy]
    refine h.nesting_push (Nat.le_refl _) ?_ j hj
    have hle := h.nesting_le _ (Nat.le_refl _)
    rw [h.opened, hkept, List.length_cons] at hle
    rw [hafter]
    exact Nat.le_of_succ_le hle

theorem placed (h : Nested a) {d : Declaration ω δ} {isWrapper : Bool}
    (hp : Placed a d isWrapper b) : Nested b := by
  have hi : Nested a.interrupt := h.congr rfl rfl rfl rfl (Nat.le_refl _)
  cases hp with
  | plain run => exact hi.addMarker d.name fun m hm => by simp [Marker.boundsWrapper, hm]
  | attributes run =>
    have hr : Nested { a with reader := a.reader.interrupt.attachMarker.1 } :=
      h.congr rfl rfl rfl rfl (Nat.le_refl _)
    exact hr.addMarker d.name fun m hm => by simp [Marker.boundsWrapper, hm]
  | wrapper run => exact hi.openWrapper d.name run
  | folded => exact hi
  | foldedWrapper => exact hi.congr rfl rfl rfl rfl (Nat.le_refl _)

theorem edit (he : Edit a b) (h : Nested a) : Nested b := by
  cases he with
  | bytes hr => exact h.congr rfl rfl rfl rfl (by simp)
  | declaration rest seen => exact h.congr rfl rfl rfl rfl (Nat.le_refl _)
  | content hin hc => exact h.congr rfl rfl rfl rfl (Nat.le_refl _)
  | unfold ho hin hcross =>
    exact h.congr rfl (by simp [keptWrappers, ho]) rfl rfl (Nat.le_refl _)
  | close ho hin hcross =>
    have hi : Nested a.interrupt := h.congr rfl rfl rfl rfl (Nat.le_refl _)
    exact hi.closeWrapper ho
  | placed hp => exact h.placed hp

theorem initial (counts : MarkerCounts) (declarations : List (Declaration ω δ)) :
    Nested (Assembly.initial counts declarations) := by
  refine ⟨⟨?_, ?_⟩, .empty, rfl, rfl, ?_⟩
  · intro i m hm
    simp [Assembly.initial] at hm
  · intro i j m n _ hm
    simp [Assembly.initial] at hm
  · intro i hi
    have : i = 0 := by simpa [Assembly.initial] using hi
    subst this
    exact Nat.zero_le _

end Nested

/-! ## 2. Growth -/

/-- What is in the assembly `a` and stays there in `b`. -/
structure Grows (a b : Assembly ω δ) : Prop where
  html : ∃ bytes, b.html = a.html ++ bytes
  size_le : a.markers.size ≤ b.markers.size
  /-- A marker stays, though a wrapper start may learn of its end. -/
  marker : ∀ (i : Nat) (m : Marker ω δ), a.markers[i]? = some m →
    b.markers[i]? = some m ∨ ∃ closing, b.markers[i]? = some (m.closedBy closing)
  /-- Nothing is learned about a marker that is no open wrapper start. -/
  settled : ∀ (i : Nat) (m : Marker ω δ), a.markers[i]? = some m → i ∉ a.keptWrappers →
    b.markers[i]? = some m
  /-- No wrapper is opened again. -/
  kept : ∀ i, i ∈ b.keptWrappers → i ∈ a.keptWrappers ∨ a.markers.size ≤ i
  content : ∀ p, a.content = some p → b.content = some p
  nesting_le : a.maxNesting ≤ b.maxNesting

namespace Grows

theorem closedBy_closedBy (m : Marker ω δ) (i j : Nat) :
    (m.closedBy i).closedBy j = m.closedBy j := by
  cases hm : m.action <;> simp [Marker.closedBy, hm]

theorem refl (a : Assembly ω δ) : Grows a a :=
  ⟨⟨.empty, by simp⟩, Nat.le_refl _, fun _ _ h => .inl h, fun _ _ h _ => h, fun _ h => .inl h,
    fun _ h => h, Nat.le_refl _⟩

theorem trans (hab : Grows a b) (hbc : Grows b c) : Grows a c := by
  obtain ⟨bytes, hb⟩ := hab.html
  obtain ⟨bytes', hc⟩ := hbc.html
  refine ⟨⟨bytes ++ bytes', by rw [hc, hb, ByteArray.append_assoc]⟩,
    Nat.le_trans hab.size_le hbc.size_le, ?_, ?_, ?_,
    fun p hp => hbc.content p (hab.content p hp), Nat.le_trans hab.nesting_le hbc.nesting_le⟩
  · intro i m hm
    rcases hab.marker i m hm with h | ⟨k, h⟩
    · exact hbc.marker i m h
    · rcases hbc.marker i _ h with h | ⟨k', h⟩
      · exact .inr ⟨k, h⟩
      · exact .inr ⟨k', closedBy_closedBy m k k' ▸ h⟩
  · intro i m hm hi
    refine hbc.settled i m (hab.settled i m hm hi) ?_
    intro hk
    rcases hab.kept i hk with h | h
    · exact hi h
    · obtain ⟨hlt, -⟩ := Array.getElem?_eq_some_iff.mp hm
      exact absurd h (Nat.not_le_of_lt hlt)
  · intro i hi
    rcases hbc.kept i hi with h | h
    · exact hab.kept i h
    · exact .inr (Nat.le_trans hab.size_le h)

/-- Only some parts of the assembly matter. -/
theorem of_eq (hm : b.markers = a.markers) (hh : ∃ bytes, b.html = a.html ++ bytes)
    (hk : ∀ i, i ∈ b.keptWrappers → i ∈ a.keptWrappers)
    (hc : ∀ p, a.content = some p → b.content = some p) (hn : b.maxNesting = a.maxNesting) :
    Grows a b :=
  ⟨hh, Nat.le_of_eq (by rw [hm]), fun _ _ h => .inl (hm ▸ h), fun _ _ h _ => hm ▸ h,
    fun i hi => .inl (hk i hi), hc, Nat.le_of_eq hn.symm⟩

theorem interrupt (a : Assembly ω δ) : Grows a a.interrupt :=
  of_eq rfl ⟨.empty, by simp [Assembly.interrupt]⟩ (fun _ h => h) (fun _ h => h) rfl

/-- A marker is added, which is open only if it is a wrapper start. -/
theorem push {m : Marker ω δ} (hm : b.markers = a.markers.push m) (hh : b.html = a.html)
    (hk : ∀ i, i ∈ b.keptWrappers → i ∈ a.keptWrappers ∨ i = a.markers.size)
    (hc : b.content = a.content) (hn : a.maxNesting ≤ b.maxNesting) : Grows a b := by
  have hold : ∀ (i : Nat) (n : Marker ω δ), a.markers[i]? = some n → b.markers[i]? = some n :=
    fun i n h => hm ▸ Balanced.getElem?_push_of_some h
  refine ⟨⟨.empty, by simp [hh]⟩, by simp [hm], fun i n h => .inl (hold i n h),
    fun i n h _ => hold i n h, fun i hi => ?_, fun p hp => hc ▸ hp, hn⟩
  rcases hk i hi with h | rfl
  · exact .inl h
  · exact .inr (Nat.le_refl _)

theorem closeWrapper {i : Nat} {rest : List (Option Nat)} (ho : a.openWrappers = some i :: rest) :
    Grows a ({ a with openWrappers := rest }.closeWrapper i) := by
  have hkept : a.keptWrappers = i :: rest.filterMap id := by simp [keptWrappers, ho]
  obtain ⟨m, hm, -, hmarkers⟩ := markers_closeWrapper { a with openWrappers := rest } i
  refine ⟨⟨.empty, ByteArray.append_empty.symm⟩, ?_, ?_, ?_,
    fun j hj => .inl ?_, fun _ h => h, Nat.le_refl _⟩
  · rw [hmarkers, Array.size_modify, Array.size_push]
    exact Nat.le_succ _
  · intro j n h
    rw [hmarkers, Array.getElem?_modify, Balanced.getElem?_push_of_some h]
    split
    · exact .inr ⟨_, rfl⟩
    · exact .inl rfl
  · intro j n h hj
    have hne : i ≠ j := by
      rintro rfl
      exact hj (hkept ▸ List.mem_cons_self)
    rw [hmarkers, Array.getElem?_modify, if_neg hne, Balanced.getElem?_push_of_some h]
  · rw [hkept]
    exact List.mem_cons_of_mem _ hj

theorem placed {d : Declaration ω δ} {isWrapper : Bool} (hp : Placed a d isWrapper b) :
    Grows a b := by
  cases hp with
  | plain run | attributes run =>
    exact push rfl rfl (fun _ h => .inl h) rfl (Nat.le_refl _)
  | wrapper run =>
    refine push rfl rfl (fun i hi => ?_) rfl (Nat.le_max_left _ _)
    rcases List.mem_cons.mp hi with rfl | hi
    · exact .inr rfl
    · exact .inl hi
  | folded => exact interrupt a
  | foldedWrapper =>
    exact of_eq rfl ⟨.empty, by simp [Assembly.interrupt]⟩ (fun _ h => h) (fun _ h => h) rfl

theorem edit (he : Edit a b) : Grows a b := by
  cases he with
  | bytes hr => exact of_eq rfl ⟨_, rfl⟩ (fun _ h => h) (fun _ h => h) rfl
  | declaration rest seen =>
    exact of_eq rfl ⟨.empty, by simp⟩ (fun _ h => h) (fun _ h => h) rfl
  | content hin hc =>
    refine of_eq rfl ⟨.empty, by simp⟩ (fun _ h => h) (fun p hp => ?_) rfl
    rw [hc] at hp
    cases hp
  | unfold ho hin hcross =>
    refine of_eq rfl ⟨.empty, by simp⟩ (fun i hi => ?_) (fun _ h => h) rfl
    simpa [keptWrappers, ho] using hi
  | close ho hin hcross => exact (interrupt a).trans (closeWrapper (a := a.interrupt) ho)
  | placed hp => exact placed hp

end Grows

open Relation in
theorem grows_of_edits (h : ReflTransGen Edit a b) : Grows a b := by
  induction h with
  | refl => exact .refl a
  | tail _ hbc ih => exact ih.trans (.edit hbc)

theorem grows_of_foldlM {pieces : List Piece} (h : pieces.foldlM addPiece a = .ok b) : Grows a b :=
  grows_of_edits (edits_of_foldlM h)

end HtmlTemplate.Assembly
