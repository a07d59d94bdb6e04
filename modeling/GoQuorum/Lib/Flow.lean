import GoQuorum.Lib.Runs

/-!
# Flow of information

Places of a system hold values, and a step may carry what one place holds to another one.  `Flow`
says that along some run the value of a place has been carried on, from place to place, to another
place at the end of the run.  If no step that carries a value on makes it smaller, then the last
place holds at least what the first one held (`Flow.le`).
-/

namespace Lib

variable {σ ε π : Type} {step : σ → ε → Option σ} {ok : σ → ε → Prop} {hop : σ → ε → π → π → Prop}

/-- The value of place `p` in `s` has been carried to place `q` in `t`; `hop s e p q` says that
event `e` carries what `p` holds before it to `q`. -/
inductive Flow (step : σ → ε → Option σ) (ok : σ → ε → Prop) (hop : σ → ε → π → π → Prop) :
    σ → π → σ → π → Prop
  | refl (s : σ) (p : π) : Flow step ok hop s p s p
  | tail {s t u : σ} {p q r : π} {e : ε} : Flow step ok hop s p t q → ok t e → step t e = some u →
      hop t e q r → Flow step ok hop s p u r

/-- The events of a flow, each with the place that it carries the value to. -/
def carry (step : σ → ε → Option σ) (sp : σ × π) (er : ε × π) : Option (σ × π) :=
  (step sp.1 er.1).map fun t => (t, er.2)

def CarriedOk (ok : σ → ε → Prop) (hop : σ → ε → π → π → Prop) (sp : σ × π) (er : ε × π) : Prop :=
  ok sp.1 er.1 ∧ hop sp.1 er.1 sp.2 er.2

instance decidableCarriedOk [∀ s e, Decidable (ok s e)] [∀ s e p q, Decidable (hop s e p q)]
    (sp : σ × π) (er : ε × π) : Decidable (CarriedOk ok hop sp er) :=
  inferInstanceAs (Decidable (_ ∧ _))

namespace Flow

variable {s t : σ} {p q : π}

theorem runs (h : Flow step ok hop s p t q) : Runs step ok s t := by
  induction h with
  | refl => exact Runs.refl _
  | tail _ hok hstep _ ih => exact ih.tail hok hstep

theorem of_runs {sp tq : σ × π} (h : Runs (carry step) (CarriedOk ok hop) sp tq) :
    Flow step ok hop sp.1 sp.2 tq.1 tq.2 := by
  induction h with
  | refl => exact refl _ _
  | tail _ hok hstep ih =>
    obtain ⟨u, hu, rfl⟩ := Option.map_eq_some_iff.1 hstep
    exact ih.tail hok.1 hu hok.2

theorem mono {ok' : σ → ε → Prop} (h : Flow step ok hop s p t q) (himp : ∀ s e, ok s e → ok' s e) :
    Flow step ok' hop s p t q := by
  induction h with
  | refl => exact refl _ _
  | tail _ hok hstep hcarry ih => exact ih.tail (himp _ _ hok) hstep hcarry

/-- If the steps that carry a value on do not make it smaller, then it has not become smaller. -/
theorem le {α : Type} (rel : α → α → Prop) (val : σ → π → α) (inv : σ → Prop)
    (hrefl : ∀ a, rel a a) (htrans : ∀ {a b c}, rel a b → rel b c → rel a c)
    (hinv : ∀ s e t, inv s → ok s e → step s e = some t → inv t)
    (hhop : ∀ s e t p q, inv s → ok s e → step s e = some t → hop s e p q → rel (val s p) (val t q))
    (h : Flow step ok hop s p t q) (hs : inv s) : rel (val s p) (val t q) := by
  induction h with
  | refl => exact hrefl _
  | tail hflow hok hstep hcarry ih =>
    exact htrans ih (hhop _ _ _ _ _ (hflow.runs.invariant inv hs hinv) hok hstep hcarry)

end Flow

end Lib
