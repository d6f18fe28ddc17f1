/-
What happens sometime in a series of actions. Two things can be told of
the end of such a series from what each action does: what holds there, if
it is brought about by some actions and then stays
(`Sometime.iff_of_step`), and what is changed there, if some actions
change it (`Sometime.of_changed`). Either way one of those actions has
been among them, and it came when the state was what the actions before
it had made.
-/
namespace HomeZ80

/-- Something holds of one of a series of actions when its turn comes. -/
def Sometime {σ α : Type} (act : σ → α → σ) (P : σ → α → Prop)
    (actions : List α) (s : σ) : Prop :=
  ∃ before x rest, actions = before ++ x :: rest
    ∧ P (before.foldl act s) x

namespace Sometime

variable {σ α : Type} {act : σ → α → σ} {P : σ → α → Prop}

/-- In a run without actions nothing happens. -/
theorem nil_iff (s : σ) : Sometime act P [] s ↔ False := by
  constructor
  · rintro ⟨before, x, rest, hactions, -⟩
    cases before <;> cases hactions
  · exact False.elim

theorem cons_iff (x : α) (rest : List α) (s : σ) :
    Sometime act P (x :: rest) s
      ↔ P s x ∨ Sometime act P rest (act s x) := by
  constructor
  · rintro ⟨before, y, last, hactions, hP⟩
    cases before with
    | nil =>
      cases hactions
      exact .inl hP
    | cons z before =>
      cases hactions
      exact .inr ⟨before, y, last, rfl, hP⟩
  · rintro (hP | ⟨before, y, last, rfl, hP⟩)
    · exact ⟨[], x, rest, rfl, hP⟩
    · exact ⟨x :: before, y, last, rfl, hP⟩

/-- What happens in the beginning of a run happens in the run. -/
theorem of_prefix {before actions : List α} {s : σ}
    (hle : before <+: actions) (h : Sometime act P before s) :
    Sometime act P actions s := by
  obtain ⟨rest, rfl⟩ := hle
  obtain ⟨early, x, late, rfl, hP⟩ := h
  exact ⟨early, x, late ++ rest, by simp, hP⟩

variable {I : σ → Prop} {Q : α → Prop} {actions : List α} {s : σ}

/-- What an action brings about exactly if `P` holds of it, and what then
stays, holds in the end if it held at first or `P` did sometime. -/
theorem iff_of_step {D : σ → Prop}
    (hI : ∀ s x, I s → I (act s x))
    (hD : ∀ s x, I s → Q x → (D (act s x) ↔ D s ∨ P s x))
    (hQ : ∀ x ∈ actions, Q x) (hs : I s) :
    D (actions.foldl act s) ↔ D s ∨ Sometime act P actions s := by
  induction actions generalizing s with
  | nil => rw [nil_iff, or_false, List.foldl_nil]
  | cons x rest ih =>
    obtain ⟨hx, hrest⟩ := List.forall_mem_cons.1 hQ
    rw [List.foldl_cons, ih hrest (hI s x hs), hD s x hs hx, cons_iff,
      or_assoc]

/-- What no action changes unless `P` holds of it has changed only if `P`
did sometime. -/
theorem of_changed {β : Type} {f : σ → β}
    (hI : ∀ s x, I s → I (act s x))
    (hf : ∀ s x, I s → Q x → f (act s x) ≠ f s → P s x)
    (hQ : ∀ x ∈ actions, Q x) (hs : I s)
    (h : f (actions.foldl act s) ≠ f s) : Sometime act P actions s := by
  induction actions generalizing s with
  | nil => exact absurd rfl h
  | cons x rest ih =>
    obtain ⟨hx, hrest⟩ := List.forall_mem_cons.1 hQ
    rw [cons_iff]
    by_cases hfirst : f (act s x) = f s
    · rw [List.foldl_cons, ← hfirst] at h
      exact .inr (ih hrest (hI s x hs) h)
    · exact .inl (hf s x hs hx hfirst)

end Sometime

end HomeZ80
