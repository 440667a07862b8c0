import Mathlib.Order.Defs.Unbundled
import PipelineShell.Attempt

/-! How attempts end, one rule for each way of putting them together, and the relations between the
states before and after that such ways keep. -/

namespace PipelineShell

namespace Attempt

variable {ε ε' σ ρ α β : Type}

/-- The state in which an attempt ends, be it with a value or a failure. -/
def final (x : Attempt ε σ α) (s : σ) : σ :=
  match x s with
  | .ok _ t => t
  | .error _ t => t

@[simp] theorem pure_apply (a : α) (s : σ) : (pure a : Attempt ε σ α) s = .ok a s := rfl

@[simp] theorem get_apply (s : σ) : (get : Attempt ε σ σ) s = .ok s s := rfl

@[simp] theorem set_apply (t s : σ) : (set t : Attempt ε σ PUnit) s = .ok ⟨⟩ t := rfl

@[simp] theorem modify_apply (f : σ → σ) (s : σ) :
    (modify f : Attempt ε σ PUnit) s = .ok ⟨⟩ (f s) := rfl

@[simp] theorem throw_apply (e : ε) (s : σ) : (throw e : Attempt ε σ α) s = .error e s := rfl

theorem bind_apply (x : Attempt ε σ α) (f : α → Attempt ε σ β) (s : σ) :
    (x >>= f) s = match x s with
      | .ok a t => f a t
      | .error e t => .error e t := rfl

theorem bind_of_ok {x : Attempt ε σ α} {s t : σ} {a : α} (h : x s = .ok a t)
    (f : α → Attempt ε σ β) : (x >>= f) s = f a t := by
  rw [bind_apply, h]

theorem bind_of_error {x : Attempt ε σ α} {s t : σ} {e : ε} (h : x s = .error e t)
    (f : α → Attempt ε σ β) : (x >>= f) s = .error e t := by
  rw [bind_apply, h]

theorem bind_eq_ok {x : Attempt ε σ α} {f : α → Attempt ε σ β} {s u : σ} {b : β} :
    (x >>= f) s = .ok b u ↔ ∃ a t, x s = .ok a t ∧ f a t = .ok b u := by
  rw [bind_apply]
  cases x s <;> simp [and_assoc]

theorem bind_eq_error {x : Attempt ε σ α} {f : α → Attempt ε σ β} {s u : σ} {e : ε} :
    (x >>= f) s = .error e u ↔
      x s = .error e u ∨ ∃ a t, x s = .ok a t ∧ f a t = .error e u := by
  rw [bind_apply]
  cases x s <;> simp [and_assoc]

theorem discard_apply (x : Attempt ε σ α) (s : σ) :
    (discard x : Attempt ε σ PUnit) s = match x s with
      | .ok _ t => .ok ⟨⟩ t
      | .error e t => .error e t := rfl

theorem ensure_eq_ok {x : Attempt ε σ α} {ending : Attempt ε σ Unit} {s u : σ} {a : α} :
    x.ensure ending s = .ok a u ↔ ∃ t, x s = .ok a t ∧ ending t = .ok () u := by
  unfold ensure
  cases x s with
  | ok b t => cases he : ending t <;> simp [and_assoc, he]
  | error e t => cases he : ending t <;> simp [he]

theorem ensure_congr {x y : Attempt ε σ α} {s t : σ} (h : x s = y t)
    (ending : Attempt ε σ Unit) : x.ensure ending s = y.ensure ending t := by
  simp only [ensure, h]

theorem ensure_eq_error {x : Attempt ε σ α} {ending : Attempt ε σ Unit} {s u : σ} {e : ε} :
    x.ensure ending s = .error e u ↔
      ending (x.final s) = .error e u ∨
        ∃ t, x s = .error e t ∧ ending t = .ok () u := by
  unfold ensure final
  cases x s with
  | ok b t => cases he : ending t <;> simp [he]
  | error e' t => cases he : ending t <;> simp [and_assoc, he]

theorem within_eq_ok {get : σ → ρ} {put : ρ → σ → σ} {x : Attempt ε ρ α} {s u : σ} {a : α} :
    x.within get put s = .ok a u ↔ ∃ r, x (get s) = .ok a r ∧ put r s = u := by
  unfold within
  cases x (get s) <;> simp [and_assoc]

theorem within_eq_error {get : σ → ρ} {put : ρ → σ → σ} {x : Attempt ε ρ α} {s u : σ} {e : ε} :
    x.within get put s = .error e u ↔ ∃ r, x (get s) = .error e r ∧ put r s = u := by
  unfold within
  cases x (get s) <;> simp [and_assoc]

theorem handle_of_ok {x : Attempt ε σ α} {s t : σ} {a : α} (hx : x s = .ok a t)
    (h : ε → Option (Attempt ε σ α)) : x.handle h s = .ok a t := by
  rw [handle, hx]

theorem handle_of_none {x : Attempt ε σ α} {h : ε → Option (Attempt ε σ α)} {s t : σ} {e : ε}
    (hx : x s = .error e t) (he : h e = none) : x.handle h s = .error e t := by
  simp [handle, hx, he]

theorem handle_of_some {x y : Attempt ε σ α} {h : ε → Option (Attempt ε σ α)} {s t : σ} {e : ε}
    (hx : x s = .error e t) (he : h e = some y) : x.handle h s = y t := by
  simp [handle, hx, he]

theorem handle_eq_ok {x : Attempt ε σ α} {h : ε → Option (Attempt ε σ α)} {s u : σ} {a : α} :
    x.handle h s = .ok a u ↔
      x s = .ok a u ∨ ∃ e t y, x s = .error e t ∧ h e = some y ∧ y t = .ok a u := by
  unfold handle
  cases x s with
  | ok b t => simp
  | error e t => cases he : h e <;> simp [and_assoc, he]

theorem handle_eq_error {x : Attempt ε σ α} {h : ε → Option (Attempt ε σ α)} {s u : σ} {e : ε} :
    x.handle h s = .error e u ↔
      (x s = .error e u ∧ h e = none) ∨
        ∃ e' t y, x s = .error e' t ∧ h e' = some y ∧ y t = .error e u := by
  unfold handle
  cases x s with
  | ok b t => simp
  | error e' t => cases he : h e' <;> grind

@[simp] theorem final_of_ok {x : Attempt ε σ α} {s t : σ} {a : α} (h : x s = .ok a t) :
    x.final s = t := by
  rw [final, h]

@[simp] theorem final_of_error {x : Attempt ε σ α} {s t : σ} {e : ε} (h : x s = .error e t) :
    x.final s = t := by
  rw [final, h]

theorem final_bind_of_ok {x : Attempt ε σ α} {s t : σ} {a : α} (h : x s = .ok a t)
    (f : α → Attempt ε σ β) : (x >>= f).final s = (f a).final t := by
  rw [final, bind_of_ok h]
  rfl

theorem final_bind_of_error {x : Attempt ε σ α} {s t : σ} {e : ε} (h : x s = .error e t)
    (f : α → Attempt ε σ β) : (x >>= f).final s = t :=
  final_of_error (bind_of_error h f)

theorem final_ensure (x : Attempt ε σ α) (ending : Attempt ε σ Unit) (s : σ) :
    (x.ensure ending).final s = ending.final (x.final s) := by
  simp only [final, Attempt.ensure]
  cases x s with
  | ok a t =>
    dsimp only
    cases ending t <;> rfl
  | error e t =>
    dsimp only
    cases ending t <;> rfl

/-- Whenever the attempt fails, it is with such a failure. -/
def Throws (P : ε → Prop) (x : Attempt ε σ α) : Prop :=
  ∀ s e t, x s = .error e t → P e

/-- From this state the attempt fails, with such a failure. -/
def Fails (P : ε → Prop) (x : Attempt ε σ α) (s : σ) : Prop :=
  ∃ e t, x s = .error e t ∧ P e

section

variable {P : ε → Prop}

theorem Throws.mono {Q : ε → Prop} {x : Attempt ε σ α} (h : Throws P x) (hpq : ∀ e, P e → Q e) :
    Throws Q x :=
  fun s e t he => hpq e (h s e t he)

theorem throws_pure (a : α) : Throws P (pure a : Attempt ε σ α) := nofun

theorem throws_get : Throws P (get : Attempt ε σ σ) := nofun

theorem throws_modify (f : σ → σ) : Throws P (modify f : Attempt ε σ PUnit) := nofun

theorem throws_outcome {ε' : Type} {P : ε' → Prop} (x : Attempt ε σ α) :
    Throws P (x.outcome : Attempt ε' σ (Except ε α)) := by
  intro s e t h
  unfold outcome at h
  cases hx : x s <;> (rw [hx] at h; cases h)

theorem Throws.discard {x : Attempt ε σ α} (hx : Throws P x) :
    Throws P (discard x : Attempt ε σ PUnit) := by
  intro s e t h
  rw [discard_apply] at h
  cases hs : x s with
  | ok a t' => rw [hs] at h; cases h
  | error f t' =>
    rw [hs] at h
    cases h
    exact hx s _ _ hs

theorem throws_throw {e : ε} (h : P e) : Throws P (throw e : Attempt ε σ α) := by
  rintro s _ _ ⟨⟩
  exact h

theorem Throws.bind {x : Attempt ε σ α} {f : α → Attempt ε σ β} (hx : Throws P x)
    (hf : ∀ a, Throws P (f a)) : Throws P (x >>= f) := by
  intro s e u h
  rcases bind_eq_error.mp h with h | ⟨a, t, _, h⟩
  · exact hx _ _ _ h
  · exact hf a _ _ _ h

theorem Throws.ensure {x : Attempt ε σ α} {ending : Attempt ε σ Unit} (hx : Throws P x)
    (he : Throws P ending) : Throws P (x.ensure ending) := by
  intro s e u h
  rcases ensure_eq_error.mp h with h | ⟨t, h, _⟩
  · exact he _ _ _ h
  · exact hx _ _ _ h

theorem Throws.handle {x : Attempt ε σ α} {h : ε → Option (Attempt ε σ α)} (hx : Throws P x)
    (hh : ∀ e y, h e = some y → Throws P y) : Throws P (x.handle h) := by
  intro s e u he
  rcases handle_eq_error.mp he with ⟨he, _⟩ | ⟨e', t, y, _, hy, he⟩
  · exact hx _ _ _ he
  · exact hh e' y hy _ _ _ he

theorem Throws.within {get : σ → ρ} {put : ρ → σ → σ} {x : Attempt ε ρ α} (hx : Throws P x) :
    Throws P (x.within get put) := by
  intro s e u h
  obtain ⟨r, h, _⟩ := within_eq_error.mp h
  exact hx _ _ _ h

theorem not_fails_of_ok {x : Attempt ε σ α} {s t : σ} {a : α} (h : x s = .ok a t) :
    ¬Fails P x s := by
  rintro ⟨e, u, he, _⟩
  rw [h] at he
  cases he

theorem not_fails_of_never {x : Attempt ε σ α} (h : Throws (fun _ => False) x) (s : σ) :
    ¬Fails P x s :=
  fun ⟨_, _, hx, _⟩ => h _ _ _ hx

@[simp] theorem not_fails_pure (a : α) (s : σ) : ¬Fails P (pure a : Attempt ε σ α) s :=
  not_fails_of_ok rfl

@[simp] theorem not_fails_get (s : σ) : ¬Fails P (get : Attempt ε σ σ) s :=
  not_fails_of_ok rfl

@[simp] theorem not_fails_modify (f : σ → σ) (s : σ) :
    ¬Fails P (modify f : Attempt ε σ PUnit) s :=
  not_fails_of_ok rfl

theorem fails_bind {x : Attempt ε σ α} {f : α → Attempt ε σ β} {s : σ} :
    Fails P (x >>= f) s ↔ Fails P x s ∨ ∃ a t, x s = .ok a t ∧ Fails P (f a) t := by
  unfold Fails
  simp only [bind_eq_error]
  constructor
  · rintro ⟨e, u, h | ⟨a, t, hx, h⟩, he⟩
    · exact .inl ⟨e, u, h, he⟩
    · exact .inr ⟨a, t, hx, e, u, h, he⟩
  · rintro (⟨e, u, h, he⟩ | ⟨a, t, hx, e, u, h, he⟩)
    · exact ⟨e, u, .inl h, he⟩
    · exact ⟨e, u, .inr ⟨a, t, hx, h⟩, he⟩

theorem fails_bind_of_never {x : Attempt ε σ α} {f : α → Attempt ε σ β}
    (h : ∀ a, Throws (fun _ => False) (f a)) {s : σ} : Fails P (x >>= f) s ↔ Fails P x s := by
  rw [fails_bind]
  exact or_iff_left fun ⟨a, t, _, hf⟩ => not_fails_of_never (h a) t hf

theorem fails_bind_of_ok {x : Attempt ε σ α} {s t : σ} {a : α} (h : x s = .ok a t)
    (f : α → Attempt ε σ β) : Fails P (x >>= f) s ↔ Fails P (f a) t := by
  unfold Fails
  rw [bind_of_ok h]

theorem fails_ensure {x : Attempt ε σ α} {ending : Attempt ε σ Unit} (hend : Throws P ending)
    {s : σ} : Fails P (x.ensure ending) s ↔ Fails P x s ∨ Fails P ending (x.final s) := by
  constructor
  · rintro ⟨e, u, h, he⟩
    rcases ensure_eq_error.mp h with h | ⟨t, h, _⟩
    · exact .inr ⟨e, u, h, he⟩
    · exact .inl ⟨e, t, h, he⟩
  · intro h
    cases hfin : ending (x.final s) with
    | error e u => exact ⟨e, u, ensure_eq_error.mpr (.inl hfin), hend _ _ _ hfin⟩
    | ok a u =>
      rcases h with ⟨e, t, h, he⟩ | ⟨e, t, h, _⟩
      · rw [final_of_error h] at hfin
        exact ⟨e, u, ensure_eq_error.mpr (.inr ⟨t, h, hfin⟩), he⟩
      · rw [hfin] at h
        cases h

theorem fails_ensure_of_never {x : Attempt ε σ α} {ending : Attempt ε σ Unit}
    (h : Throws (fun _ => False) ending) {s : σ} : Fails P (x.ensure ending) s ↔ Fails P x s := by
  rw [fails_ensure (h.mono fun _ => False.elim)]
  exact or_iff_left (not_fails_of_never h _)

theorem fails_within {get : σ → ρ} {put : ρ → σ → σ} {x : Attempt ε ρ α} {s : σ} :
    Fails P (x.within get put) s ↔ Fails P x (get s) := by
  constructor
  · rintro ⟨e, u, h, he⟩
    obtain ⟨r, h, _⟩ := within_eq_error.mp h
    exact ⟨e, r, h, he⟩
  · rintro ⟨e, r, h, he⟩
    exact ⟨e, _, within_eq_error.mpr ⟨r, h, rfl⟩, he⟩

end

/-- However the attempt ends, the states before and after it stand in a relation. -/
def Keeps (R : σ → σ → Prop) (x : Attempt ε σ α) : Prop :=
  ∀ s, R s (x.final s)

section

variable {R : σ → σ → Prop}

theorem Keeps.ok {x : Attempt ε σ α} (h : Keeps R x) {s t : σ} {a : α} (hx : x s = .ok a t) :
    R s t :=
  final_of_ok hx ▸ h s

theorem Keeps.error {x : Attempt ε σ α} (h : Keeps R x) {s t : σ} {e : ε}
    (hx : x s = .error e t) : R s t :=
  final_of_error hx ▸ h s

theorem Keeps.mono {S : σ → σ → Prop} {x : Attempt ε σ α} (h : Keeps R x)
    (hs : ∀ s t, R s t → S s t) : Keeps S x :=
  fun s => hs _ _ (h s)

theorem keeps_get {f : σ → Attempt ε σ α} (h : ∀ s, R s ((f s).final s)) : Keeps R (get >>= f) := h

theorem keeps_modify {f : σ → σ} (h : ∀ s, R s (f s)) :
    Keeps R (modify f : Attempt ε σ PUnit) := h

theorem keeps_discard {x : Attempt ε σ α} (hx : Keeps R x) :
    Keeps R (discard x : Attempt ε σ PUnit) := by
  intro s
  have hs := hx s
  unfold final at *
  rw [discard_apply]
  cases h : x s <;> (rw [h] at hs; exact hs)

theorem keeps_outcome {ε' : Type} {x : Attempt ε σ α} (hx : Keeps R x) :
    Keeps R (x.outcome : Attempt ε' σ (Except ε α)) := by
  intro s
  have hs := hx s
  unfold final outcome at *
  cases h : x s <;> (rw [h] at hs; exact hs)

variable [IsPreorder σ R]

theorem keeps_pure (a : α) : Keeps R (pure a : Attempt ε σ α) := refl_of R

theorem keeps_throw (e : ε) : Keeps R (throw e : Attempt ε σ α) := refl_of R

theorem Keeps.bind {x : Attempt ε σ α} {f : α → Attempt ε σ β} (hx : Keeps R x)
    (hf : ∀ a, Keeps R (f a)) : Keeps R (x >>= f) := by
  intro s
  cases h : x s with
  | ok a t =>
    rw [final, bind_of_ok h]
    exact trans_of R (hx.ok h) (hf a t)
  | error e t =>
    rw [final, bind_of_error h]
    exact hx.error h

theorem Keeps.ensure {x : Attempt ε σ α} {ending : Attempt ε σ Unit} (hx : Keeps R x)
    (he : Keeps R ending) : Keeps R (x.ensure ending) :=
  fun s => final_ensure x ending s ▸ trans_of R (hx s) (he _)

theorem final_handle {h : ε → Option (Attempt ε σ α)} (hh : ∀ e y, h e = some y → Keeps R y)
    (x : Attempt ε σ α) (s : σ) : R (x.final s) ((x.handle h).final s) := by
  cases hxs : x s with
  | ok a t => simpa [Attempt.handle, final, hxs] using refl_of R t
  | error e t =>
    cases he : h e with
    | none => simpa [Attempt.handle, final, hxs, he] using refl_of R t
    | some y => simpa [Attempt.handle, final, hxs, he] using hh e y he t

theorem Keeps.handle {x : Attempt ε σ α} {h : ε → Option (Attempt ε σ α)} (hx : Keeps R x)
    (hh : ∀ e y, h e = some y → Keeps R y) : Keeps R (x.handle h) :=
  fun s => trans_of R (hx s) (final_handle hh x s)

end

/-- From a state with the one property the attempt comes to one with the other, however it ends. -/
def Leads (P Q : σ → Prop) (x : Attempt ε σ α) : Prop :=
  ∀ s, P s → Q (x.final s)

section

variable {P Q R : σ → Prop}

theorem leads_get {f : σ → Attempt ε σ α} (h : ∀ s, P s → Q ((f s).final s)) :
    Leads P Q (get >>= f) := h

theorem leads_pure (a : α) (h : ∀ s, P s → Q s) : Leads P Q (pure a : Attempt ε σ α) := h

theorem leads_modify {f : σ → σ} (h : ∀ s, P s → Q (f s)) :
    Leads P Q (modify f : Attempt ε σ PUnit) := h

theorem Keeps.leads {r : σ → σ → Prop} {x : Attempt ε σ α} (hx : Keeps r x)
    (h : ∀ s t, r s t → P s → Q t) : Leads P Q x :=
  fun s => h s _ (hx s)

theorem Leads.bind {x : Attempt ε σ α} {f : α → Attempt ε σ β} (hx : Leads P Q x)
    (hf : ∀ a, Leads Q R (f a)) (hfail : ∀ s, Q s → R s) : Leads P R (x >>= f) := by
  intro s hs
  have ht := hx s hs
  cases h : x s with
  | ok a t =>
    rw [final_of_ok h] at ht
    rw [final_bind_of_ok h]
    exact hf a t ht
  | error e t =>
    rw [final_of_error h] at ht
    rw [final_bind_of_error h]
    exact hfail t ht

theorem Leads.bind_of_never {x : Attempt ε σ α} {f : α → Attempt ε σ β} (hx : Leads P Q x)
    (hnever : Throws (fun _ => False) x) (hf : ∀ a, Leads Q R (f a)) : Leads P R (x >>= f) := by
  intro s hs
  have ht := hx s hs
  cases h : x s with
  | ok a t =>
    rw [final_of_ok h] at ht
    rw [final_bind_of_ok h]
    exact hf a t ht
  | error e t => exact (hnever s e t h).elim

end

end Attempt

end PipelineShell
