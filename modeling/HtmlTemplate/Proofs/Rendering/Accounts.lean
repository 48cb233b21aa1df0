import Mathlib.Data.List.Perm.Basic
import HtmlTemplate.Proofs.Rendering.Journal

/-!
# The account of a journal

What a render adds to its journal is accounted for ending by ending: each one that has been
registered has been invoked since, or it is still owed. `Adds` says what is known of the
notes that are added between two sessions:

* the marks are new, and so are the numbers of the callbacks that are invoked in between;
* of the endings that one callback has registered, those that have been invoked and those that
  are still owed are, in this order, the reverse of those registered;
* once the response is halted, its output stays as it is, and nothing is invoked (`Quiet`).

A callback at a wrapper start that has been invoked before may go on to register endings
(`own`). They are not invoked before it returns.

Results:
1. `Adds.trans`: accounts are put together. What is owed last comes first.
2. `Adds.ran_head`: the ending that is owed first is invoked.
3. `Adds.begun`: a callback at a wrapper start is invoked; from the outside its endings are
   like all others.
4. `Adds.perm`, `Adds.nodup_ran`: no ending is invoked twice, and all are if none is owed.
-/

namespace HtmlTemplate

variable {σ : Type}

/-! ## 1. Notes -/

namespace Journal

/-- The endings that have been registered. -/
def registered (entries : List Entry) : List Mark := entries.filterMap (·.event.registered?)

/-- The endings that have been invoked. -/
def ran (entries : List Entry) : List Mark := entries.filterMap (·.event.ran?)

/-- The endings that one invocation of a callback has registered. -/
def ofCallback (callback : Nat) (marks : List Mark) : List Mark :=
  marks.filter (·.callback = callback)

variable {a b : List Entry} {l l' : List Mark} {m : Mark} {k : Nat}

@[simp] theorem registered_append : registered (a ++ b) = registered a ++ registered b :=
  List.filterMap_append

@[simp] theorem ran_append : ran (a ++ b) = ran a ++ ran b := List.filterMap_append

@[simp] theorem ofCallback_append : ofCallback k (l ++ l') = ofCallback k l ++ ofCallback k l' :=
  List.filter_append ..

theorem mem_ofCallback : m ∈ ofCallback k l ↔ m ∈ l ∧ m.callback = k := by
  simp [ofCallback]

theorem ofCallback_eq_nil (h : ∀ m ∈ l, m.callback ≠ k) : ofCallback k l = [] := by
  rw [List.eq_nil_iff_forall_not_mem]
  intro m hm
  obtain ⟨hmem, hk⟩ := mem_ofCallback.mp hm
  exact h m hmem hk

/-- Lists that hold the same endings of each callback in reverse order hold the same
endings. -/
theorem perm_of_ofCallback (h : ∀ k, ofCallback k l = (ofCallback k l').reverse) :
    l.Perm l' := by
  rw [List.perm_iff_count]
  intro m
  have hcount : ∀ l : List Mark, l.count m = (ofCallback m.callback l).count m := fun l =>
    (List.count_filter (by simp)).symm
  rw [hcount l, hcount l', h, List.count_reverse]

/-- Once the response is halted, its output stays as it is, from the response `r` on over the
notes to the response `r'`, and nothing is invoked. -/
def Quiet (r : Response) : List Entry → Response → Prop
  | [], r' => r.Frozen r'
  | e :: rest, r' =>
    r.Frozen e.response ∧ (e.event.isInvocation = true → e.response.halted = false) ∧
      Quiet e.response rest r'

namespace Quiet

variable {r r' r'' : Response}

theorem frozen (h : Quiet r a r') : r.Frozen r' := by
  induction a generalizing r with
  | nil => exact h
  | cons e rest ih => exact h.1.trans (ih h.2.2)

theorem of_frozen (hr : r.Frozen r') (h : Quiet r' a r'') : Quiet r a r'' := by
  cases a with
  | nil => exact hr.trans h
  | cons e rest => exact ⟨hr.trans h.1, h.2⟩

theorem append (h : Quiet r a r') (h' : Quiet r' b r'') : Quiet r (a ++ b) r'' := by
  induction a generalizing r with
  | nil => exact h'.of_frozen h
  | cons e rest ih => exact ⟨h.1, h.2.1, ih h.2.2⟩

end Quiet

end Journal

open Journal

/-! ## 2. Accounts -/

/-- What is known of the notes `new` between two sessions, and of the endings that are owed,
the next one first. -/
structure Adds (own : Option Nat) (s s' : Session (Journaled σ)) (new : List Entry)
    (owed : List Mark) : Prop where
  entries_eq : s'.entries = s.entries ++ new
  next_le : s.next ≤ s'.next
  /-- The callback that goes on has been invoked before. -/
  own_lt : ∀ k, own = some k → k < s.next
  nodup : (registered new).Nodup
  number_mem : ∀ m ∈ registered new, s.next ≤ m.number ∧ m.number < s'.next
  callback_mem : ∀ m ∈ registered new,
    own = some m.callback ∨ s.next ≤ m.callback ∧ m.callback < s'.next
  account : ∀ k, ofCallback k (ran new ++ owed) = (ofCallback k (registered new)).reverse
  /-- An ending that is invoked is not one of the callback that goes on. -/
  ran_ge : ∀ m ∈ ran new, s.next ≤ m.callback
  quiet : Quiet s.response new s'.response

namespace Adds

variable {own : Option Nat} {s s₁ s₂ s' : Session (Journaled σ)} {new new' : List Entry}
  {owed owed' : List Mark} {m : Mark} {k : Nat}

/-- What has been registered has been invoked or is owed. -/
theorem perm (h : Adds own s s' new owed) : (ran new ++ owed).Perm (registered new) :=
  perm_of_ofCallback h.account

theorem nodup_ran (h : Adds own s s' new owed) : (ran new).Nodup :=
  (List.nodup_append.mp (h.perm.nodup_iff.mpr h.nodup)).1

theorem mem_registered_of_ran (h : Adds own s s' new owed) (hm : m ∈ ran new) :
    m ∈ registered new :=
  h.perm.subset (List.mem_append_left _ hm)

theorem mem_registered_of_owed (h : Adds own s s' new owed) (hm : m ∈ owed) :
    m ∈ registered new :=
  h.perm.subset (List.mem_append_right _ hm)

/-- The callback of an ending that is registered has been invoked by then. -/
theorem callback_lt (h : Adds own s s' new owed) (hm : m ∈ registered new) :
    m.callback < s'.next := by
  rcases h.callback_mem m hm with hown | ⟨-, hlt⟩
  · exact Nat.lt_of_lt_of_le (h.own_lt _ hown) h.next_le
  · exact hlt

/-- Nothing is noted, and no number is given away. -/
theorem silent (hjournal : s'.world.journal = s.world.journal)
    (hfrozen : s.response.Frozen s'.response) (hown : ∀ k, own = some k → k < s.next) :
    Adds own s s' [] [] where
  entries_eq := by simp [Session.entries, hjournal]
  next_le := by simp [Session.next, hjournal]
  own_lt := hown
  nodup := List.nodup_nil
  number_mem m hm := by cases hm
  callback_mem m hm := by cases hm
  account k := rfl
  ran_ge m hm := by cases hm
  quiet := hfrozen

/-- Of each callback, either nothing has run before or nothing is registered later. -/
theorem ran_or_registered_eq_nil (h : Adds own s s₁ new owed) (h' : Adds own s₁ s' new' owed')
    (k : Nat) : ofCallback k (ran new) = [] ∨ ofCallback k (registered new') = [] := by
  by_cases hk : k < s₁.next
  · by_cases hown : own = some k
    · left
      refine ofCallback_eq_nil fun m hm => ?_
      have hge := h.ran_ge m hm
      have hlt := h.own_lt k hown
      omega
    · right
      refine ofCallback_eq_nil fun m hm heq => ?_
      rcases h'.callback_mem m hm with hm | hm
      · exact hown (heq ▸ hm)
      · omega
  · left
    refine ofCallback_eq_nil fun m hm => ?_
    have hlt := h.callback_lt (h.mem_registered_of_ran hm)
    omega

theorem account_append (h : Adds own s s₁ new owed) (h' : Adds own s₁ s' new' owed') (k : Nat) :
    ofCallback k (ran (new ++ new') ++ (owed' ++ owed)) =
      (ofCallback k (registered (new ++ new'))).reverse := by
  have hfirst := h.account k
  have hlast := h'.account k
  rw [ofCallback_append] at hfirst hlast
  simp only [ran_append, registered_append, ofCallback_append, List.reverse_append, ← hfirst,
    ← hlast]
  rcases h.ran_or_registered_eq_nil h' k with hnil | hnil
  · simp [hnil]
  · rw [hnil, List.reverse_nil] at hlast
    obtain ⟨hran, howed⟩ := List.append_eq_nil_iff.mp hlast
    simp [hran, howed]

/-- Accounts are put together. What is registered later is owed first. -/
theorem trans (h : Adds own s s₁ new owed) (h' : Adds own s₁ s' new' owed') :
    Adds own s s' (new ++ new') (owed' ++ owed) where
  entries_eq := by rw [h'.entries_eq, h.entries_eq, List.append_assoc]
  next_le := Nat.le_trans h.next_le h'.next_le
  own_lt := h.own_lt
  nodup := by
    rw [registered_append, List.nodup_append]
    refine ⟨h.nodup, h'.nodup, fun m hm m' hm' heq => ?_⟩
    subst heq
    have hlt := (h.number_mem m hm).2
    have hge := (h'.number_mem m hm').1
    omega
  number_mem m hm := by
    rw [registered_append] at hm
    have hle := h.next_le
    have hle' := h'.next_le
    rcases List.mem_append.mp hm with hm | hm
    · have hmem := h.number_mem m hm
      omega
    · have hmem := h'.number_mem m hm
      omega
  callback_mem m hm := by
    rw [registered_append] at hm
    have hle := h.next_le
    have hle' := h'.next_le
    rcases List.mem_append.mp hm with hm | hm
    · exact (h.callback_mem m hm).imp_right fun hmem => ⟨hmem.1, by omega⟩
    · exact (h'.callback_mem m hm).imp_right fun hmem => ⟨by omega, hmem.2⟩
  account := h.account_append h'
  ran_ge m hm := by
    rw [ran_append] at hm
    rcases List.mem_append.mp hm with hm | hm
    · exact h.ran_ge m hm
    · exact Nat.le_trans h.next_le (h'.ran_ge m hm)
  quiet := h.quiet.append h'.quiet

/-- Only the order counts in which the endings of each callback are owed. -/
theorem reorder (h : Adds own s s' new owed)
    (hk : ∀ k, ofCallback k owed' = ofCallback k owed) : Adds own s s' new owed' :=
  { h with account := fun k => by rw [ofCallback_append, hk, ← ofCallback_append, h.account] }

/-- The account of what a callback does while it goes on. -/
theorem within (h : Adds none s s' new owed) (hk : k < s.next) : Adds (some k) s s' new owed :=
  { h with
    own_lt := by rintro _ ⟨⟩; exact hk
    callback_mem := fun m hm => .inr ((h.callback_mem m hm).resolve_left nofun) }

/-- The ending that is owed first is invoked. -/
theorem ran_head (h : Adds none s s' new (m :: owed)) (hs : s'.response.halted = false) :
    Adds none s (s'.noting (.ran m)) (new ++ [s'.entry (.ran m)]) owed := by
  have hregistered : registered (new ++ [s'.entry (.ran m)]) = registered new := by
    rw [registered_append]
    exact List.append_nil _
  have hran : ran (new ++ [s'.entry (.ran m)]) = ran new ++ [m] := ran_append
  refine
    { entries_eq := ?_
      next_le := h.next_le
      own_lt := h.own_lt
      nodup := hregistered ▸ h.nodup
      number_mem := hregistered ▸ h.number_mem
      callback_mem := hregistered ▸ h.callback_mem
      account := fun k => ?_
      ran_ge := fun m' hm => ?_
      quiet := h.quiet.append ⟨.refl _, fun _ => hs, .refl _⟩ }
  · show s'.entries ++ [_] = _
    rw [h.entries_eq, List.append_assoc]
  · rw [hregistered, hran, List.append_assoc]
    exact h.account k
  · rw [hran] at hm
    rcases List.mem_append.mp hm with hm | hm
    · exact h.ran_ge m' hm
    · cases List.mem_singleton.mp hm
      rcases h.callback_mem m (h.mem_registered_of_owed List.mem_cons_self) with hown | hmem
      · cases hown
      · exact hmem.1

/-- A note that is not about endings. -/
theorem noted {event : Event} (hown : ∀ k, own = some k → k < s.next)
    (hregistered : event.registered? = none) (hran : event.ran? = none)
    (hs : event.isInvocation = true → s.response.halted = false) :
    Adds own s (s.noting event) [s.entry event] [] := by
  have hregistered : registered [s.entry event] = [] :=
    List.filterMap_cons_none hregistered
  have hran : ran [s.entry event] = [] := List.filterMap_cons_none hran
  exact
    { entries_eq := rfl
      next_le := Nat.le_refl _
      own_lt := hown
      nodup := hregistered ▸ List.nodup_nil
      number_mem := fun m hm => by rw [hregistered] at hm; cases hm
      callback_mem := fun m hm => by rw [hregistered] at hm; cases hm
      account := fun k => by rw [hregistered, hran]; rfl
      ran_ge := fun m hm => by rw [hran] at hm; cases hm
      quiet := ⟨.refl _, hs, .refl _⟩ }

/-- The callback that goes on registers an ending. -/
theorem registers (hk : k < s.next) :
    Adds (some k) s (s.counting.noting (.registered ⟨k, s.next⟩))
      [s.counting.entry (.registered ⟨k, s.next⟩)] [⟨k, s.next⟩] where
  entries_eq := rfl
  next_le := Nat.le_succ _
  own_lt k' hk' := by cases hk'; exact hk
  nodup := List.nodup_cons.mpr ⟨List.not_mem_nil, List.nodup_nil⟩
  number_mem m hm := by
    obtain rfl : m = ⟨k, s.next⟩ := List.mem_singleton.mp hm
    exact ⟨Nat.le_refl _, Nat.lt_succ_self _⟩
  callback_mem m hm := by
    obtain rfl : m = ⟨k, s.next⟩ := List.mem_singleton.mp hm
    exact .inl rfl
  account k' := by
    show ofCallback k' [_] = (ofCallback k' [_]).reverse
    by_cases hk' : k = k' <;> simp [ofCallback, hk']
  ran_ge m hm := by cases hm
  quiet := ⟨Response.Frozen.refl _, by simp [Session.entry, Event.isInvocation], .refl _⟩

/-- The callback registers an ending behind those of a render that it has started, none of
which is its own. -/
theorem registers_last (h : Adds none s s₁ new owed) (hk : k < s.next) :
    Adds (some k) s (s₁.counting.noting (.registered ⟨k, s₁.next⟩))
      (new ++ [s₁.counting.entry (.registered ⟨k, s₁.next⟩)]) (owed ++ [⟨k, s₁.next⟩]) := by
  have hk₁ := Nat.lt_of_lt_of_le hk h.next_le
  refine ((h.within hk).trans (.registers hk₁)).reorder fun k' => ?_
  rw [ofCallback_append, ofCallback_append]
  by_cases hk' : k = k'
  · have hnil : ofCallback k' owed = [] := by
      refine ofCallback_eq_nil fun m hm heq => ?_
      rcases h.callback_mem m (h.mem_registered_of_owed hm) with hown | hmem
      · cases hown
      · omega
    simp [hnil]
  · have hnil : ofCallback k' [⟨k, s₁.next⟩] = [] :=
      ofCallback_eq_nil fun m hm => by rwa [List.mem_singleton.mp hm]
    simp [hnil]

/-- A callback at a wrapper start has been invoked. From the outside its endings are like all
others. -/
theorem begun (hs : s.response.halted = false)
    (h : Adds (some s.next) (s.noting .called).counting s' new owed) :
    Adds none s s' (s.entry .called :: new) owed where
  entries_eq := by
    rw [h.entries_eq]
    show (s.entries ++ [_]) ++ new = _
    rw [List.append_assoc]
    rfl
  next_le := Nat.le_trans (Nat.le_succ _) h.next_le
  own_lt k hk := by cases hk
  nodup := h.nodup
  number_mem m hm := by
    have hmem := h.number_mem m hm
    exact ⟨Nat.le_trans (Nat.le_succ _) hmem.1, hmem.2⟩
  callback_mem m hm := by
    right
    rcases h.callback_mem m hm with hown | hmem
    · rw [← Option.some.inj hown]
      exact ⟨Nat.le_refl _, h.next_le⟩
    · exact ⟨Nat.le_trans (Nat.le_succ _) hmem.1, hmem.2⟩
  account := h.account
  ran_ge m hm := Nat.le_trans (Nat.le_succ _) (h.ran_ge m hm)
  quiet := ⟨.refl _, fun _ => hs, h.quiet⟩

end Adds

end HtmlTemplate
