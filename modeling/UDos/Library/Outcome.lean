import Mathlib.Logic.Basic

/-!
# Outcomes of code that may not return

A call ends with a value, stops the system with a message, leaves the objects
it was given, or is still looping when its iteration budget is used up. The
four are kept apart: a statement about what a call returns says nothing when
the call panics, and a safety statement excludes the fault alone.
-/

universe u v

/-- The result of running a piece of code to its end. -/
inductive Outcome (α : Type u) where
  | ok (value : α)
  | panic (message : String)
  | fault
  | diverge
deriving DecidableEq, Repr

namespace Outcome

variable {α : Type u} {β : Type v}

def bind (x : Outcome α) (f : α → Outcome β) : Outcome β :=
  match x with
  | ok a => f a
  | panic message => panic message
  | fault => fault
  | diverge => diverge

instance : Monad Outcome where
  pure := ok
  bind := bind

/-- Continue when the condition holds and stop with the message otherwise. -/
def check (condition : Prop) [Decidable condition] (message : String) : Outcome Unit :=
  if condition then ok () else panic message

section
variable {α β : Type u}

@[simp] theorem pure_eq (a : α) : (pure a : Outcome α) = ok a := rfl

@[simp] theorem ok_bind (a : α) (f : α → Outcome β) : (ok a >>= f) = f a := rfl

@[simp] theorem panic_bind (message : String) (f : α → Outcome β) :
    ((panic message : Outcome α) >>= f) = panic message := rfl

@[simp] theorem fault_bind (f : α → Outcome β) : ((fault : Outcome α) >>= f) = fault := rfl

@[simp] theorem diverge_bind (f : α → Outcome β) :
    ((diverge : Outcome α) >>= f) = diverge := rfl

theorem bind_eq_ok {x : Outcome α} {f : α → Outcome β} {b : β} :
    (x >>= f) = ok b ↔ ∃ a, x = ok a ∧ f a = ok b := by
  constructor
  · intro h
    cases x with
    | ok a => exact ⟨a, rfl, h⟩
    | panic message => cases h
    | fault => cases h
    | diverge => cases h
  · rintro ⟨a, rfl, h⟩
    exact h

end

theorem check_of {condition : Prop} [Decidable condition] (h : condition) (message : String) :
    check condition message = ok () := if_pos h

@[simp] theorem check_eq_ok {condition : Prop} [Decidable condition] {message : String}
    {u : Unit} : check condition message = ok u ↔ condition := by
  by_cases h : condition
  · simp [check, h]
  · simp [check, h]

/-- The computation returns a value with the property, or panics. -/
def Sound (good : α → Prop) : Outcome α → Prop
  | ok a => good a
  | panic _ => True
  | fault => False
  | diverge => False

instance {good : α → Prop} [DecidablePred good] (x : Outcome α) : Decidable (Sound good x) :=
  match x with
  | ok a => inferInstanceAs (Decidable (good a))
  | panic _ => isTrue trivial
  | fault => isFalse id
  | diverge => isFalse id

theorem Sound.bind {α β : Type u} {x : Outcome α} {f : α → Outcome β} {mid : α → Prop}
    {good : β → Prop} (first : Sound mid x) (second : ∀ a, mid a → Sound good (f a)) :
    Sound good (x >>= f) := by
  cases x with
  | ok a => exact second a first
  | panic message => trivial
  | fault => exact first.elim
  | diverge => exact first.elim

theorem Sound.mono {x : Outcome α} {good better : α → Prop} (sound : Sound good x)
    (weaker : ∀ a, good a → better a) : Sound better x := by
  cases x with
  | ok a => exact weaker a sound
  | panic message => trivial
  | fault => exact sound
  | diverge => exact sound

theorem Sound.strengthen {x : Outcome α} {good better : α → Prop} (sound : Sound good x)
    (stronger : ∀ a, x = ok a → good a → better a) : Sound better x := by
  cases x with
  | ok a => exact stronger a rfl sound
  | panic message => trivial
  | fault => exact sound
  | diverge => exact sound

/-- What the computation returns, if anything, has the property. -/
def After (good : α → Prop) (x : Outcome α) : Prop := ∀ a, x = ok a → good a

instance {good : α → Prop} [DecidablePred good] (x : Outcome α) : Decidable (After good x) :=
  match x with
  | ok a => decidable_of_iff (good a) ⟨fun h _ same => by cases same; exact h, fun h => h a rfl⟩
  | panic _ => isTrue fun _ same => by cases same
  | fault => isTrue fun _ same => by cases same
  | diverge => isTrue fun _ same => by cases same

theorem after_ok {a : α} {good : α → Prop} (h : good a) : After good (ok a) :=
  fun _ same => ok.inj same ▸ h

theorem After.bind {α β : Type u} {x : Outcome α} {f : α → Outcome β} {mid : α → Prop}
    {good : β → Prop} (first : After mid x) (second : ∀ a, mid a → After good (f a)) :
    After good (x >>= f) := by
  intro b ran
  obtain ⟨a, value, rest⟩ := bind_eq_ok.mp ran
  exact second a (first a value) b rest

def returns : Outcome α → Bool
  | ok _ => true
  | _ => false

theorem returns_iff {x : Outcome α} : x.returns = true ↔ ∃ a, x = ok a := by
  constructor
  · intro returns
    cases x with
    | ok a => exact ⟨a, rfl⟩
    | panic message => cases returns
    | fault => cases returns
    | diverge => cases returns
  · rintro ⟨a, rfl⟩
    rfl

theorem returns_bind {α β : Type u} {x : Outcome α} {f : α → Outcome β} :
    (x >>= f).returns = true ↔ ∃ a, x = ok a ∧ (f a).returns = true := by
  cases x with
  | ok a => exact ⟨fun rest => ⟨a, rfl, rest⟩, fun ⟨_, same, rest⟩ => ok.inj same ▸ rest⟩
  | panic message => exact ⟨fun h => (nomatch h), fun ⟨_, same, _⟩ => (nomatch same)⟩
  | fault => exact ⟨fun h => (nomatch h), fun ⟨_, same, _⟩ => (nomatch same)⟩
  | diverge => exact ⟨fun h => (nomatch h), fun ⟨_, same, _⟩ => (nomatch same)⟩

theorem Sound.after {x : Outcome α} {good : α → Prop} (sound : Sound good x) : After good x := by
  rintro a rfl
  exact sound

theorem After.sound {x : Outcome α} {good : α → Prop} (after : After good x)
    (returns : x.returns = true) : Sound good x := by
  obtain ⟨a, rfl⟩ := returns_iff.mp returns
  exact after a rfl

theorem Sound.returned {x : Outcome α} {good : α → Prop} (sound : Sound good x)
    (returns : x.returns = true) : ∃ a, x = ok a ∧ good a := by
  cases x with
  | ok a => exact ⟨a, rfl, sound⟩
  | panic message => cases returns
  | fault => cases returns
  | diverge => cases returns

theorem sound_check {condition : Prop} [Decidable condition] (message : String) :
    Sound (fun _ => condition) (check condition message) := by
  by_cases h : condition
  · rw [check_of h]
    exact h
  · rw [check, if_neg h]
    trivial

end Outcome
