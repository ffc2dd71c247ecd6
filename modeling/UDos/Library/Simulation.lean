import Mathlib.Data.List.Forall2
import UDos.Library.Runs

/-!
# Runs that another system answers

One system is answered by another when each of its steps is matched by a step of the
other that is allowed there. Then so is each of its runs.
-/

namespace Runs

universe u v w x

variable {σ : Type u} {ι : Type v} {τ : Type w} {κ : Type x}
variable {step : σ → ι → Outcome σ} {answer : τ → κ → Outcome τ}

theorem run_simulated {related : σ → τ → Prop} {good : σ → ι → Prop} {allowed : τ → κ → Prop}
    {matching : ι → κ → Prop}
    (simulate : ∀ s t i, related s t → good s i → Outcome.Sound (fun s' =>
      ∃ k t', matching i k ∧ allowed t k ∧ answer t k = .ok t' ∧ related s' t') (step s i))
    {s : σ} {t : τ} {actions : List ι} (start : related s t)
    (meets : Meets step good s actions) :
    Outcome.Sound (fun s' => ∃ answers t', List.Forall₂ matching actions answers ∧
      Meets answer allowed t answers ∧ run answer t answers = .ok t' ∧ related s' t')
      (run step s actions) := by
  induction actions generalizing s t with
  | nil => exact ⟨[], t, List.Forall₂.nil, trivial, rfl, start⟩
  | cons i rest ih =>
    rw [run_cons]
    have first : Outcome.Sound (fun m => step s i = .ok m ∧ ∃ k t', matching i k ∧ allowed t k ∧
        answer t k = .ok t' ∧ related m t') (step s i) :=
      (simulate s t i start meets.1).strengthen fun m ran found => ⟨ran, found⟩
    refine first.bind ?_
    rintro m ⟨ran, k, u, matched, here, answered, next⟩
    refine (ih next (meets.2 m ran)).mono ?_
    rintro s' ⟨answers, t', all, later, tail, last⟩
    refine ⟨k :: answers, t', List.Forall₂.cons matched all, ?_, ?_, last⟩
    · exact (meets_cons answered).mpr ⟨here, later⟩
    · rw [run_cons, answered]
      exact tail

end Runs
