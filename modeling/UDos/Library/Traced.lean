import UDos.Library.Outcome

/-!
# Computations that report what they read

A traced computation has, besides its outcome, the list of the ranges it has
read, in order, up to the point where it stops for any reason.
-/

universe u

/-- The ranges read, each an address and a length, and the outcome. -/
structure Traced (α : Type u) where
  reads : List (Nat × Nat)
  result : Outcome α

namespace Traced

variable {α β : Type u}

def bind (x : Traced α) (f : α → Traced β) : Traced β :=
  match x.result with
  | .ok a => ⟨x.reads ++ (f a).reads, (f a).result⟩
  | .panic message => ⟨x.reads, .panic message⟩
  | .fault => ⟨x.reads, .fault⟩
  | .diverge => ⟨x.reads, .diverge⟩

instance : Monad Traced where
  pure a := ⟨[], .ok a⟩
  bind := bind

/-- Read n bytes from an address on, which hold the value. -/
def read (a n : Nat) (value : α) : Traced α := ⟨[(a, n)], .ok value⟩

/-- A computation that reads nothing. -/
def lift (x : Outcome α) : Traced α := ⟨[], x⟩

/-- Every range read is as required. -/
def Within (inside : Nat × Nat → Prop) (x : Traced α) : Prop := ∀ r ∈ x.reads, inside r

variable {inside : Nat × Nat → Prop}

theorem bind_result (x : Traced α) (f : α → Traced β) :
    (x >>= f).result = (x.result >>= fun a => (f a).result) := by
  change (bind x f).result = Outcome.bind x.result fun a => (f a).result
  unfold bind Outcome.bind
  split <;> simp_all

@[simp] theorem pure_result (a : α) : (pure a : Traced α).result = .ok a := rfl

@[simp] theorem read_result (a n : Nat) (value : α) : (read a n value).result = .ok value := rfl

@[simp] theorem lift_result (x : Outcome α) : (lift x).result = x := rfl

@[simp] theorem within_pure (a : α) : Within inside (pure a : Traced α) := by
  intro r member
  cases member

@[simp] theorem within_lift (x : Outcome α) : Within inside (lift x) := by
  intro r member
  cases member

@[simp] theorem within_read (a n : Nat) (value : α) :
    Within inside (read a n value) ↔ inside (a, n) := by
  simp [Within, read]

/-- A sequence reads what its parts read, the second when the first returns. -/
theorem within_bind {x : Traced α} {f : α → Traced β} :
    Within inside (x >>= f) ↔
      Within inside x ∧ ∀ a, x.result = .ok a → Within inside (f a) := by
  obtain ⟨reads, result⟩ := x
  change (∀ r ∈ (bind ⟨reads, result⟩ f).reads, inside r) ↔ _
  cases result with
  | ok a =>
    simp only [bind, List.mem_append, Within]
    constructor
    · intro all
      refine ⟨fun r hr => all r (Or.inl hr), ?_⟩
      intro b same r hr
      cases same
      exact all r (Or.inr hr)
    · rintro ⟨first, second⟩ r (hr | hr)
      · exact first r hr
      · exact second a rfl r hr
  | panic message => simp [bind, Within]
  | fault => simp [bind, Within]
  | diverge => simp [bind, Within]

theorem within_read_bind (a n : Nat) (value : α) (f : α → Traced β) :
    Within inside (read a n value >>= f) ↔ inside (a, n) ∧ Within inside (f value) := by
  rw [within_bind, within_read]
  simp

theorem read_bind_congr {a n : Nat} {value : α} {f g : α → Traced β} (same : f value = g value) :
    (read a n value >>= f) = (read a n value >>= g) := by
  change bind _ _ = bind _ _
  simp only [bind, read, same]

end Traced
