import Mathlib.Algebra.BigOperators.Ring.Finset

/-! Finite runs of a labelled transition system and the induction rules for them. -/

namespace FarmOS.Lib

variable {σ τ ε : Type*} {P : σ → Prop} {R : σ → τ → Prop} {x : τ} {e : ε} {u : σ} {next : σ → ε → Option σ}

inductive Run (step : σ → ε → σ → Prop) (s : σ) : List ε → σ → Prop
  | nil : Run step s [] s
  | snoc {es t e u} : Run step s es t → step t e u → Run step s (es ++ [e]) u

namespace Run

variable {step : σ → ε → σ → Prop} {s t : σ} {es : List ε}

lemma invariant (h : Run step s es t) (hs : P s) (hstep : ∀ a e b, P a → step a e b → P b) : P t := by
  induction h with
  | nil => exact hs
  | snoc _ he ih => exact hstep _ _ _ ih he

lemma simulate {spec : τ → ε → τ → Prop} (h : Run step s es t) (hs : R s x)
    (hstep : ∀ a e b y, R a y → step a e b → ∃ z, spec y e z ∧ R b z) :
    ∃ y, Run spec x es y ∧ R t y := by
  induction h with
  | nil => exact ⟨x, .nil, hs⟩
  | snoc _ he ih =>
    obtain ⟨y, hy, hr⟩ := ih
    obtain ⟨z, hz, hr'⟩ := hstep _ _ _ y hr he
    exact ⟨z, .snoc hy hz, hr'⟩

lemma folded {f : τ → ε → τ} (h : Run step s es t) (hs : R s x)
    (hstep : ∀ a e b y, R a y → step a e b → R b (f y e)) : R t (es.foldl f x) := by
  induction h with
  | nil => exact hs
  | @snoc es a e b _ he ih =>
    rw [List.foldl_append]
    exact hstep a e b _ ih he

lemma single (h : step s e t) : Run step s [e] t :=
  show Run step s ([] ++ [e]) t from .snoc .nil h

lemma append {fs : List ε} (h : Run step s es t) (h' : Run step t fs u) : Run step s (es ++ fs) u := by
  induction h' with
  | nil => simpa using h
  | @snoc fs b e c _ he ih =>
    rw [← List.append_assoc]
    exact .snoc ih he

lemma cons (h : step s e t) (h' : Run step t es u) : Run step s (e :: es) u :=
  (single h).append h'

lemma of_foldlM (hn : ∀ s e t, next s e = some t → step s e t)
    (h : es.foldlM next s = some t) : Run step s es t := by
  induction es generalizing s with
  | nil =>
    cases h
    exact .nil
  | cons e es ih =>
    rw [List.foldlM_cons, Option.bind_eq_bind, Option.bind_eq_some_iff] at h
    obtain ⟨u, hu, h⟩ := h
    exact .cons (hn s e u hu) (ih h)

lemma of_eval {α : Type*} {g : σ → α} {v : α} (hn : ∀ s e t, next s e = some t → step s e t)
    (h : (es.foldlM next s).map g = some v) : ∃ t, Run step s es t ∧ g t = v := by
  obtain ⟨t, ht, hv⟩ := Option.map_eq_some_iff.mp h
  exact ⟨t, of_foldlM hn ht, hv⟩

def guarded (p : σ → ε → Prop) [∀ s e, Decidable (p s e)] (next : σ → ε → Option σ) (s : σ) (e : ε) : Option σ :=
  if p s e then next s e else none

lemma of_guarded {p : σ → ε → Prop} [∀ s e, Decidable (p s e)] (h : guarded p next s e = some t) :
    p s e ∧ next s e = some t := by
  rwa [guarded, Option.ite_none_right_eq_some] at h

lemma mono {step' : σ → ε → σ → Prop} (h : Run step s es t)
    (hm : ∀ a e b, step a e b → step' a e b) : Run step' s es t := by
  induction h with
  | nil => exact .nil
  | snoc _ he ih => exact .snoc ih (hm _ _ _ he)

end Run

def Meets (step : σ → ε → σ) (ok : σ → ε → Prop) : σ → List ε → Prop
  | _, [] => True
  | s, e :: es => ok s e ∧ Meets step ok (step s e) es

namespace Meets

variable {step : σ → ε → σ} {ok : σ → ε → Prop}

instance decidable [∀ s e, Decidable (ok s e)] : ∀ s es, Decidable (Meets step ok s es)
  | _, [] => .isTrue trivial
  | s, e :: es =>
    have := decidable (step s e) es
    inferInstanceAs (Decidable (_ ∧ _))

lemma invariant {s : σ} {es : List ε} (h : Meets step ok s es) (hs : P s)
    (hstep : ∀ s e, P s → ok s e → P (step s e)) : P (es.foldl step s) := by
  induction es generalizing s with
  | nil => exact hs
  | cons e es ih => exact ih h.2 (hstep s e hs h.1)

end Meets

end FarmOS.Lib
