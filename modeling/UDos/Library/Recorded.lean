import UDos.Library.Outcome

/-!
# Computations that record events

Beside its outcome a recorded computation has the events that happened until it
stopped for any reason, in order. Without the events it is the computation that
its outcome is of.
-/

universe u

structure Recorded (ε α : Type u) where
  events : List ε
  result : Outcome α

namespace Recorded

variable {ε α β : Type u}

def bind (x : Recorded ε α) (f : α → Recorded ε β) : Recorded ε β :=
  match x.result with
  | .ok a => ⟨x.events ++ (f a).events, (f a).result⟩
  | .panic message => ⟨x.events, .panic message⟩
  | .fault => ⟨x.events, .fault⟩
  | .diverge => ⟨x.events, .diverge⟩

instance : Monad (Recorded ε) where
  pure a := ⟨[], .ok a⟩
  bind := bind

def emit (e : ε) : Recorded ε PUnit := ⟨[e], .ok ⟨⟩⟩

/-- A computation in which nothing happens that is recorded. -/
def lift (x : Outcome α) : Recorded ε α := ⟨[], x⟩

/-- Every event that happens has the property. -/
def All (good : ε → Prop) (x : Recorded ε α) : Prop := ∀ e ∈ x.events, good e

variable {good : ε → Prop}

theorem bind_result (x : Recorded ε α) (f : α → Recorded ε β) :
    (x >>= f).result = (x.result >>= fun a => (f a).result) := by
  obtain ⟨events, result⟩ := x
  cases result with
  | ok a => rfl
  | panic message => rfl
  | fault => rfl
  | diverge => rfl

theorem returned_bind (events : List ε) (a : α) (f : α → Recorded ε β) :
    ((⟨events, .ok a⟩ : Recorded ε α) >>= f) = ⟨events ++ (f a).events, (f a).result⟩ := rfl

theorem bind_events {x : Recorded ε α} {a : α} (returned : x.result = .ok a)
    (f : α → Recorded ε β) : (x >>= f).events = x.events ++ (f a).events := by
  obtain ⟨events, result⟩ := x
  cases returned
  rfl

@[simp] theorem pure_result (a : α) : (pure a : Recorded ε α).result = .ok a := rfl

@[simp] theorem emit_result (e : ε) : (emit e).result = .ok ⟨⟩ := rfl

@[simp] theorem lift_result (x : Outcome α) : (lift x : Recorded ε α).result = x := rfl

theorem all_pure (a : α) : All good (pure a : Recorded ε α) := by
  intro e member
  cases member

theorem all_lift (x : Outcome α) : All good (lift x) := by
  intro e member
  cases member

@[simp] theorem all_emit (e : ε) : All good (emit e) ↔ good e := by
  simp [All, emit]

/-- In a sequence the events of the first part happen, and those of the second
when the first returns. -/
theorem all_bind {x : Recorded ε α} {f : α → Recorded ε β} :
    All good (x >>= f) ↔ All good x ∧ ∀ a, x.result = .ok a → All good (f a) := by
  obtain ⟨events, result⟩ := x
  change (∀ e ∈ (bind ⟨events, result⟩ f).events, good e) ↔ _
  cases result with
  | ok a =>
    simp only [bind, List.mem_append, All]
    constructor
    · intro all
      refine ⟨fun e he => all e (Or.inl he), fun b same e he => ?_⟩
      cases same
      exact all e (Or.inr he)
    · rintro ⟨first, second⟩ e (he | he)
      · exact first e he
      · exact second a rfl e he
  | panic message => simp [bind, All]
  | fault => simp [bind, All]
  | diverge => simp [bind, All]

end Recorded
