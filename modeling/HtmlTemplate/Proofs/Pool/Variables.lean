import HtmlTemplate.Pool.Settings
import HtmlTemplate.Proofs.Text.Numbers

/-!
# Settings from variables

Settings are read from variables that are looked up in a fixed order. Each of them is not set, or
it gives a number, or it fails: because it cannot be looked up, or because its text is no number.
What is looked up is written down here, so that reading the settings can be seen to end at the
first variable that fails.

Results:
1. `PoolVariable.outcome_eq_ok_iff`, `PoolVariable.outcome_eq_error_iff`: what one variable gives,
   and why it fails.
2. `PoolSettings.answered_readRecorded`, `PoolSettings.Answered.unique`: what all of them give.
3. `PoolSettings.settings_of_variables`: the settings, the error, and the names looked up.
-/

namespace HtmlTemplate

/-! ## 1. One variable -/

namespace PoolVariable

/-- The variables in the order in which they are looked up. -/
def inOrder : List PoolVariable := [poolSize, stackFrames, frameCapacity, outputCapacity]

/-- A number for each variable, where there is one. -/
def select (size? stack? frame? output? : Option Nat) : PoolVariable → Option Nat
  | poolSize => size?
  | stackFrames => stack?
  | frameCapacity => frame?
  | outputCapacity => output?

variable (lookup : String → Except SettingsError (Option String)) (v : PoolVariable)

/-- What the variable gives: nothing if it is not set, else the number that it is set to, with
white space allowed around it. -/
inductive Gives : Option Nat → Prop
  | unset : lookup v.name = .ok none → Gives none
  | number {text : String} {core : List Char} {n : Nat} : lookup v.name = .ok (some text) →
      Text.Trims text.toList core → Decimal.Writes core n → n < UInt64.size → Gives (some n)

/-- Why the variable fails: it cannot be looked up, or it is set to a text that is no number. -/
inductive Fails : SettingsError → Prop
  | lookup {e : SettingsError} : lookup v.name = .error e → Fails e
  | number {text : String} {core : List Char} {reason : Decimal.NumberError} :
      lookup v.name = .ok (some text) → Text.Trims text.toList core →
      Decimal.Wrong UInt64.size core reason → Fails (.number v.name reason)

/-- What reading the variable comes to. -/
def outcome : Except SettingsError (Option Nat) :=
  ExceptT.run (PoolSettings.readNumber? (m := Id) lookup v)

variable {lookup v}

theorem outcome_of_error {e : SettingsError} (h : lookup v.name = .error e) :
    outcome lookup v = .error e := by
  unfold outcome PoolSettings.readNumber?
  rw [h]
  rfl

theorem outcome_of_none (h : lookup v.name = .ok none) : outcome lookup v = .ok none := by
  unfold outcome PoolSettings.readNumber?
  rw [h]
  rfl

theorem outcome_of_some {text : String} (h : lookup v.name = .ok (some text)) :
    outcome lookup v =
      match Decimal.read UInt64.size (Text.trimBlank text.toList) with
      | .ok n => .ok (some n)
      | .error reason => .error (.number v.name reason) := by
  unfold outcome PoolSettings.readNumber?
  rw [h]
  show (match Decimal.read UInt64.size (Text.trimBlank text.toList) with
    | .ok n => _
    | .error reason => _ : ExceptT SettingsError Id (Option Nat)) = _
  split <;> rfl

theorem outcome_eq_ok_iff {number? : Option Nat} :
    outcome lookup v = .ok number? ↔ v.Gives lookup number? := by
  have hpos : 0 < UInt64.size := by decide
  constructor
  · intro h
    cases hlookup : lookup v.name with
    | error e => simp [outcome_of_error hlookup] at h
    | ok text? =>
      cases text? with
      | none =>
        rw [outcome_of_none hlookup] at h
        cases h
        exact .unset hlookup
      | some text =>
        rw [outcome_of_some hlookup] at h
        split at h
        · next n hread =>
          cases h
          obtain ⟨hwrites, hlt⟩ := (Decimal.read_eq_ok_iff hpos).mp hread
          exact .number hlookup (Text.trims_trimBlank _) hwrites hlt
        · cases h
  · intro h
    cases h with
    | unset hlookup => exact outcome_of_none hlookup
    | number hlookup htrims hwrites hlt =>
      obtain rfl := Text.trims_iff.mp htrims
      rw [outcome_of_some hlookup, (Decimal.read_eq_ok_iff hpos).mpr ⟨hwrites, hlt⟩]

theorem outcome_eq_error_iff {e : SettingsError} :
    outcome lookup v = .error e ↔ v.Fails lookup e := by
  have hpos : 0 < UInt64.size := by decide
  constructor
  · intro h
    cases hlookup : lookup v.name with
    | error e' =>
      rw [outcome_of_error hlookup] at h
      cases h
      exact .lookup hlookup
    | ok text? =>
      cases text? with
      | none => simp [outcome_of_none hlookup] at h
      | some text =>
        rw [outcome_of_some hlookup] at h
        split at h
        · cases h
        · next reason hread =>
          cases h
          exact .number hlookup (Text.trims_trimBlank _) ((Decimal.read_eq_error_iff hpos).mp hread)
  · intro h
    cases h with
    | lookup hlookup => exact outcome_of_error hlookup
    | number hlookup htrims hwrong =>
      obtain rfl := Text.trims_iff.mp htrims
      rw [outcome_of_some hlookup, (Decimal.read_eq_error_iff hpos).mpr hwrong]

theorem Gives.unique {x y : Option Nat} (h : v.Gives lookup x) (h' : v.Gives lookup y) : x = y :=
  Except.ok.inj ((outcome_eq_ok_iff.mpr h).symm.trans (outcome_eq_ok_iff.mpr h'))

theorem Fails.unique {x y : SettingsError} (h : v.Fails lookup x) (h' : v.Fails lookup y) :
    x = y :=
  Except.error.inj ((outcome_eq_error_iff.mpr h).symm.trans (outcome_eq_error_iff.mpr h'))

theorem Fails.not_gives {e : SettingsError} {number? : Option Nat} (h : v.Fails lookup e) :
    ¬v.Gives lookup number? := by
  intro hgives
  have heq := (outcome_eq_error_iff.mpr h).symm.trans (outcome_eq_ok_iff.mpr hgives)
  cases heq

end PoolVariable

/-! ## 2. All variables -/

namespace PoolSettings

open PoolVariable

variable (lookup : String → Except SettingsError (Option String))

/-- Looks a variable up and writes its name down. -/
def recorded (name : String) : StateM (List String) (Except SettingsError (Option String)) :=
  fun names => (lookup name, names ++ [name])

/-- Reads the settings, with the names that are looked up for it. -/
def readRecorded : Except SettingsError PoolSettings × List String :=
  (read (recorded lookup)).run []

/-- The settings with the numbers given. Each field is the number that its own variable gives, or
the default. -/
def ofNumbers (number? : PoolVariable → Option Nat) : PoolSettings :=
  { maxPooled := ((number? poolSize).map .items).getD ({} : PoolSettings).maxPooled
    maxStackFrames := (number? stackFrames).getD ({} : PoolSettings).maxStackFrames
    maxFrameCapacity := (number? frameCapacity).getD ({} : PoolSettings).maxFrameCapacity
    maxOutputCapacity := (number? outputCapacity).getD ({} : PoolSettings).maxOutputCapacity }

/-- All variables give something, or one of them is the first to fail. -/
inductive Answered : Except SettingsError PoolSettings × List String → Prop
  | all {number? : PoolVariable → Option Nat} : (∀ v : PoolVariable, v.Gives lookup (number? v)) →
      Answered (.ok (ofNumbers number?), inOrder.map PoolVariable.name)
  | first {before after : List PoolVariable} {v : PoolVariable} {e : SettingsError} :
      inOrder = before ++ v :: after → (∀ u ∈ before, ∃ number?, u.Gives lookup number?) →
      v.Fails lookup e → Answered (.error e, (before ++ [v]).map PoolVariable.name)

variable {lookup}

section

variable {ε σ α β : Type} {x : ExceptT ε (StateM σ) α} {f : α → ExceptT ε (StateM σ) β} {s s' : σ}

theorem run_bind_of_ok {a : α} (h : x.run s = (.ok a, s')) :
    (x >>= f).run s = (f a).run s' := by
  show (match x.run s with | (r, s') => ExceptT.bindCont (m := StateM σ) f r s') = _
  rw [h]
  rfl

theorem run_bind_of_error {e : ε} (h : x.run s = (.error e, s')) :
    (x >>= f).run s = (.error e, s') := by
  show (match x.run s with | (r, s') => ExceptT.bindCont (m := StateM σ) f r s') = _
  rw [h]
  rfl

end

/-- A variable is read by one look-up of its name. -/
theorem run_readNumber? (v : PoolVariable) (names : List String) :
    (readNumber? (recorded lookup) v).run names = (outcome lookup v, names ++ [v.name]) := by
  have hrecorded : (ExceptT.mk (recorded lookup v.name)).run names =
      (lookup v.name, names ++ [v.name]) := rfl
  unfold readNumber?
  cases h : lookup v.name with
  | error e => rw [outcome_of_error h, run_bind_of_error (h ▸ hrecorded)]
  | ok text? =>
    rw [run_bind_of_ok (h ▸ hrecorded)]
    cases text? with
    | none =>
      rw [outcome_of_none h]
      rfl
    | some text =>
      rw [outcome_of_some h]
      show (match Decimal.read UInt64.size (Text.trimBlank text.toList) with
        | .ok n => _
        | .error reason => _ : ExceptT SettingsError (StateM (List String)) (Option Nat)).run _ = _
      split <;> rfl

/-- One variable more: reading goes on if it gives something, and else it is the first to fail. -/
theorem answered_bind (before : List PoolVariable) {after : List PoolVariable} {v : PoolVariable}
    {f : Option Nat → ExceptT SettingsError (StateM (List String)) PoolSettings}
    (horder : inOrder = before ++ v :: after)
    (hbefore : ∀ u ∈ before, ∃ number?, u.Gives lookup number?)
    (hnext : ∀ number?, v.Gives lookup number? →
      Answered lookup ((f number?).run ((before ++ [v]).map PoolVariable.name))) :
    Answered lookup
      ((readNumber? (recorded lookup) v >>= f).run (before.map PoolVariable.name)) := by
  have hread : (readNumber? (recorded lookup) v).run _ = _ :=
    run_readNumber? v (before.map PoolVariable.name)
  cases h : outcome lookup v with
  | error e =>
    rw [run_bind_of_error (h ▸ hread), ← List.map_singleton, ← List.map_append]
    exact .first horder hbefore (outcome_eq_error_iff.mp h)
  | ok number? =>
    rw [run_bind_of_ok (h ▸ hread), ← List.map_singleton, ← List.map_append]
    exact hnext number? (outcome_eq_ok_iff.mp h)

theorem answered_readRecorded : Answered lookup (readRecorded lookup) := by
  unfold readRecorded read
  refine answered_bind [] rfl (by simp) fun size? hsize => ?_
  refine answered_bind [poolSize] rfl (by simpa using ⟨_, hsize⟩) fun stack? hstack => ?_
  refine answered_bind [poolSize, stackFrames] rfl
    (by simpa using ⟨⟨_, hsize⟩, _, hstack⟩) fun frame? hframe => ?_
  refine answered_bind [poolSize, stackFrames, frameCapacity] rfl
    (by simpa using ⟨⟨_, hsize⟩, ⟨_, hstack⟩, _, hframe⟩) fun output? houtput => ?_
  have hall : ∀ v : PoolVariable, v.Gives lookup (select size? stack? frame? output? v) := by
    intro v
    cases v with
    | poolSize => exact hsize
    | stackFrames => exact hstack
    | frameCapacity => exact hframe
    | outputCapacity => exact houtput
  exact .all hall

theorem Answered.unique {x y : Except SettingsError PoolSettings × List String}
    (h : Answered lookup x) (h' : Answered lookup y) : x = y := by
  cases h with
  | all hall =>
    cases h' with
    | all hall' => rw [funext fun v => (hall v).unique (hall' v)]
    | first _ _ hfails => exact (hfails.not_gives (hall _)).elim
  | first horder hbefore hfails =>
    cases h' with
    | all hall => exact (hfails.not_gives (hall _)).elim
    | first horder' hbefore' hfails' =>
      rcases List.append_eq_append_iff.mp (horder.symm.trans horder') with
        ⟨more, rfl, hmore⟩ | ⟨more, rfl, hmore⟩
      · cases more with
        | nil =>
          cases hmore
          rw [hfails.unique hfails', List.append_nil]
        | cons u more =>
          cases hmore
          obtain ⟨number?, hgives⟩ := hbefore' _ (List.mem_append_right _ List.mem_cons_self)
          exact (hfails.not_gives hgives).elim
      · cases more with
        | nil =>
          cases hmore
          rw [hfails.unique hfails', List.append_nil]
        | cons u more =>
          cases hmore
          obtain ⟨number?, hgives⟩ := hbefore _ (List.mem_append_right _ List.mem_cons_self)
          exact (hfails'.not_gives hgives).elim

theorem readRecorded_eq_iff {x : Except SettingsError PoolSettings × List String} :
    readRecorded lookup = x ↔ Answered lookup x :=
  ⟨fun h => h ▸ answered_readRecorded, fun h => answered_readRecorded.unique h⟩

/-! ## 3. The settings -/

/-- The settings are read if no variable fails. Each field is then what its own variable gives, or
the default, and each variable has been looked up. Otherwise the error is that of the first
variable that fails, and no variable behind it has been looked up. -/
theorem settings_of_variables (lookup : String → Except SettingsError (Option String)) :
    ((∃ settings, (readRecorded lookup).1 = .ok settings) ↔
      ∀ v : PoolVariable, ∃ number?, v.Gives lookup number?) ∧
    (∀ settings names, readRecorded lookup = (.ok settings, names) ↔
      names = inOrder.map PoolVariable.name ∧ ∃ number? : PoolVariable → Option Nat,
        (∀ v : PoolVariable, v.Gives lookup (number? v)) ∧ settings = ofNumbers number?) ∧
    ∀ e names, readRecorded lookup = (.error e, names) ↔
      ∃ before v after, inOrder = before ++ v :: after ∧
        (∀ u ∈ before, ∃ number?, u.Gives lookup number?) ∧ v.Fails lookup e ∧
        names = (before ++ [v]).map PoolVariable.name := by
  have hok : ∀ settings names, readRecorded lookup = (.ok settings, names) ↔
      names = inOrder.map PoolVariable.name ∧ ∃ number? : PoolVariable → Option Nat,
        (∀ v : PoolVariable, v.Gives lookup (number? v)) ∧ settings = ofNumbers number? := by
    intro settings names
    rw [readRecorded_eq_iff]
    constructor
    · intro h
      cases h with
      | all hall => exact ⟨rfl, _, hall, rfl⟩
    · rintro ⟨rfl, number?, hall, rfl⟩
      exact .all hall
  refine ⟨⟨?_, ?_⟩, hok, fun e names => ?_⟩
  · rintro ⟨settings, hsettings⟩ v
    obtain ⟨-, number?, hall, -⟩ := (hok settings _).mp (Prod.ext hsettings rfl)
    exact ⟨number? v, hall v⟩
  · intro hall
    choose number? hnumber using hall
    exact ⟨_, congrArg Prod.fst ((hok _ _).mpr ⟨rfl, number?, hnumber, rfl⟩)⟩
  · rw [readRecorded_eq_iff]
    constructor
    · intro h
      cases h with
      | first horder hbefore hfails => exact ⟨_, _, _, horder, hbefore, hfails, rfl⟩
    · rintro ⟨before, v, after, horder, hbefore, hfails, rfl⟩
      exact .first horder hbefore hfails

/-- Reading stops at the second variable, in which a letter follows the digits. -/
example : readRecorded (fun name => .ok (if name = stackFrames.name then some " +2x" else none)) =
    (.error (.number stackFrames.name .invalidDigit), [poolSize.name, stackFrames.name]) := by
  rfl

end PoolSettings

end HtmlTemplate
