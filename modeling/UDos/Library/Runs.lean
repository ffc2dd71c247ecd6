import UDos.Library.Outcome

/-!
# Runs of a step function

A system is a step function from a state and an action to an outcome. A run
plays a list of actions from a state. The induction over runs is made once
here, under a condition that every step of the run has to meet.
-/

namespace Runs

universe u v

variable {σ : Type u} {ι : Type v} (step : σ → ι → Outcome σ)

def run : σ → List ι → Outcome σ
  | s, [] => .ok s
  | s, i :: rest => step s i >>= fun t => run t rest

@[simp] theorem run_nil (s : σ) : run step s [] = .ok s := rfl

theorem run_cons (s : σ) (i : ι) (rest : List ι) :
    run step s (i :: rest) = (step s i >>= fun t => run step t rest) := rfl

/-- Every step that the run takes meets the condition in the state it starts from. -/
def Meets (good : σ → ι → Prop) : σ → List ι → Prop
  | _, [] => True
  | s, i :: rest => good s i ∧ ∀ t, step s i = .ok t → Meets good t rest

variable {step}

theorem meets_cons {good : σ → ι → Prop} {s t : σ} {i : ι} {rest : List ι}
    (ran : step s i = .ok t) :
    Meets step good s (i :: rest) ↔ good s i ∧ Meets step good t rest := by
  constructor
  · rintro ⟨now, later⟩
    exact ⟨now, later t ran⟩
  · rintro ⟨now, later⟩
    refine ⟨now, fun u ran' => ?_⟩
    rw [ran] at ran'
    cases ran'
    exact later

theorem meets_cons_of_stop {good : σ → ι → Prop} {s : σ} {i : ι} {rest : List ι}
    (stops : ∀ t, step s i ≠ .ok t) : Meets step good s (i :: rest) ↔ good s i := by
  constructor
  · exact fun meets => meets.1
  · exact fun now => ⟨now, fun t ran => absurd ran (stops t)⟩

/-- Whether a run meets a decidable condition is found by running it. -/
instance decidableMeets {good : σ → ι → Prop} [∀ s i, Decidable (good s i)] :
    (s : σ) → (actions : List ι) → Decidable (Meets step good s actions)
  | _, [] => isTrue trivial
  | s, i :: rest =>
    match ran : step s i with
    | .ok t =>
      have later : Decidable (Meets step good t rest) := decidableMeets t rest
      decidable_of_iff _ (meets_cons ran).symm
    | .panic _ => decidable_of_iff (good s i) (meets_cons_of_stop (by simp [ran])).symm
    | .fault => decidable_of_iff (good s i) (meets_cons_of_stop (by simp [ran])).symm
    | .diverge => decidable_of_iff (good s i) (meets_cons_of_stop (by simp [ran])).symm

theorem meets_of_keep {inv : σ → Prop} {good better : σ → ι → Prop}
    (keep : ∀ s i, inv s → good s i → better s i ∧ Outcome.After inv (step s i))
    {s : σ} {actions : List ι} (start : inv s) (meets : Meets step good s actions) :
    Meets step better s actions := by
  induction actions generalizing s with
  | nil => trivial
  | cons i rest ih =>
    obtain ⟨now, kept⟩ := keep s i start meets.1
    exact ⟨now, fun t ran => ih (kept t ran) (meets.2 t ran)⟩

theorem meets_of_forall {good : ι → Prop} {s : σ} {actions : List ι}
    (all : ∀ i ∈ actions, good i) : Meets step (fun _ i => good i) s actions := by
  induction actions generalizing s with
  | nil => trivial
  | cons i rest ih =>
    exact ⟨all i List.mem_cons_self,
      fun _ _ => ih fun j hj => all j (List.mem_cons_of_mem i hj)⟩

/-- A run returns when every step that meets the condition returns, and what
these steps keep holds at its end. -/
theorem run_returns {inv : σ → Prop} {good : σ → ι → Prop}
    (keep : ∀ s i, inv s → good s i → ∃ t, step s i = .ok t ∧ inv t)
    {s : σ} {actions : List ι} (start : inv s) (meets : Meets step good s actions) :
    ∃ t, run step s actions = .ok t ∧ inv t := by
  induction actions generalizing s with
  | nil => exact ⟨s, rfl, start⟩
  | cons i rest ih =>
    obtain ⟨m, ran, kept⟩ := keep s i start meets.1
    obtain ⟨t, tail, last⟩ := ih kept (meets.2 m ran)
    exact ⟨t, by rw [run_cons, ran]; exact tail, last⟩

/-- What holds at the start and is kept by every step that meets the condition
holds at the end of every run all of whose steps meet it. -/
theorem run_invariant_of_meets {inv : σ → Prop} {good : σ → ι → Prop}
    (keep : ∀ s i t, inv s → good s i → step s i = .ok t → inv t)
    {s t : σ} {actions : List ι} (start : inv s) (meets : Meets step good s actions)
    (ran : run step s actions = .ok t) : inv t := by
  induction actions generalizing s with
  | nil =>
    cases ran
    exact start
  | cons i rest ih =>
    obtain ⟨m, hm, tail⟩ := Outcome.bind_eq_ok.mp ran
    exact ih (keep s i m start meets.1 hm) (meets.2 m hm) tail

theorem run_records {β : Type u} {record : σ → List β} {entry : ι → β}
    (records : ∀ s i t, step s i = .ok t → record t = record s ++ [entry i])
    {s t : σ} {actions : List ι} (ran : run step s actions = .ok t) :
    record t = record s ++ actions.map entry := by
  induction actions generalizing s with
  | nil =>
    cases ran
    simp
  | cons i rest ih =>
    obtain ⟨m, first, tail⟩ := Outcome.bind_eq_ok.mp ran
    rw [ih tail, records s i m first, List.append_assoc, List.map_cons, List.singleton_append]

/-- Steps that keep the invariant or panic make runs that keep it or panic. -/
theorem run_sound {inv : σ → Prop} {good : σ → ι → Prop}
    (keep : ∀ s i, inv s → good s i → Outcome.Sound inv (step s i))
    {s : σ} {actions : List ι} (start : inv s) (meets : Meets step good s actions) :
    Outcome.Sound inv (run step s actions) := by
  induction actions generalizing s with
  | nil => exact start
  | cons i rest ih =>
    have first := keep s i start meets.1
    rw [run_cons]
    cases ran : step s i with
    | ok t =>
      rw [ran] at first
      exact ih first (meets.2 t ran)
    | panic message => trivial
    | fault =>
      rw [ran] at first
      exact first
    | diverge =>
      rw [ran] at first
      exact first

/-- Where a step is safe exactly when it meets the condition, a run is safe after
each of its steps exactly when all of them meet it. -/
theorem prefixes_sound_iff {inv safe : σ → Prop} {given good : σ → ι → Prop}
    (inside : ∀ s, inv s → safe s)
    (exact : ∀ s i, inv s → given s i → (Outcome.Sound safe (step s i) ↔ good s i))
    (keep : ∀ s i, inv s → given s i → good s i → Outcome.Sound inv (step s i))
    {s : σ} {actions : List ι} (start : inv s) (meets : Meets step given s actions) :
    (∀ k, Outcome.Sound safe (run step s (actions.take k))) ↔ Meets step good s actions := by
  induction actions generalizing s with
  | nil =>
    refine iff_of_true (fun k => ?_) trivial
    rw [List.take_nil]
    exact inside s start
  | cons i rest ih =>
    have now := exact s i start meets.1
    constructor
    · intro all
      have first : good s i := by
        have one := all 1
        rw [List.take_succ_cons, List.take_zero, run_cons] at one
        refine now.mp ?_
        cases ran : step s i with
        | ok t => simpa [ran] using one
        | panic message => trivial
        | fault => simpa [ran] using one
        | diverge => simpa [ran] using one
      refine ⟨first, fun t ran => ?_⟩
      have kept := keep s i start meets.1 first
      rw [ran] at kept
      refine (ih kept (meets.2 t ran)).mp fun k => ?_
      have next := all (k + 1)
      rwa [List.take_succ_cons, run_cons, ran] at next
    · rintro ⟨first, later⟩ k
      cases k with
      | zero => exact inside s start
      | succ k =>
        have kept := keep s i start meets.1 first
        rw [List.take_succ_cons, run_cons]
        cases ran : step s i with
        | ok t =>
          rw [ran] at kept
          exact (ih kept (meets.2 t ran)).mpr (later t ran) k
        | panic message => trivial
        | fault =>
          rw [ran] at kept
          exact kept
        | diverge =>
          rw [ran] at kept
          exact kept

end Runs
