import Mathlib.Data.List.Basic

/-! Computations that end in a fault or in a value, and rules for the loops that
are built from them: what every turn preserves, a finished loop preserves. -/
namespace Sassrv.Partial

universe u v w
variable {ε : Type u} {σ : Type v} {τ : Type v} {α : Type w}

@[simp] theorem bind_eq_ok {x : Except ε σ} {f : σ → Except ε τ} {b : τ} :
    (x >>= f) = .ok b ↔ ∃ a, x = .ok a ∧ f a = .ok b := by
  cases x with
  | error e => simp [bind, Except.bind]
  | ok a => simp [bind, Except.bind]

@[simp] theorem pure_eq_ok {a b : σ} : (pure a : Except ε σ) = .ok b ↔ a = b := by
  simp [pure, Except.pure]

theorem map_eq_ok {x : Except ε σ} {f : σ → α} {b : α} :
    x.map f = .ok b ↔ ∃ a, x = .ok a ∧ f a = b := by
  cases x with
  | error e => simp [Except.map]
  | ok a => simp [Except.map]

theorem eq_ok_of_isSome {x : Except ε σ} (h : x.toOption.isSome) (d : σ) :
    x = .ok (x.toOption.getD d) := by
  cases x with
  | error e => cases h
  | ok a => rfl

theorem bind_eq_error {x : Except ε σ} {f : σ → Except ε τ} {e : ε} (h : (x >>= f) = .error e) :
    x = .error e ∨ ∃ a, x = .ok a ∧ f a = .error e := by
  cases x with
  | error e' =>
      cases h
      exact .inl rfl
  | ok a => exact .inr ⟨a, rfl, h⟩

/-- A condition that each turn of a loop meets in the state it starts from. -/
def Along (f : σ → α → Except ε σ) (ok : σ → α → Prop) : σ → List α → Prop
  | _, [] => True
  | s, a :: rest => ok s a ∧ ∀ t, f s a = .ok t → Along f ok t rest

/-- A relation that is reflexive and transitive holds over a loop if it holds over
each turn. -/
theorem foldlM_rel {f : σ → α → Except ε σ} {rel : σ → σ → Prop}
    (hRefl : ∀ s, rel s s) (hTrans : ∀ {s t u}, rel s t → rel t u → rel s u)
    {items : List α} (hStep : ∀ s a t, a ∈ items → f s a = .ok t → rel s t)
    {s t : σ} (h : items.foldlM f s = .ok t) : rel s t := by
  induction items generalizing s with
  | nil =>
      rw [List.foldlM_nil, pure_eq_ok] at h
      exact h ▸ hRefl s
  | cons a rest ih =>
      rw [List.foldlM_cons, bind_eq_ok] at h
      obtain ⟨u, hFirst, hRest⟩ := h
      have hTail := ih (fun s a t ha => hStep s a t (List.mem_cons_of_mem _ ha)) hRest
      exact hTrans (hStep s a u List.mem_cons_self hFirst) hTail

theorem foldl_rel {f : σ → α → σ} {rel : σ → σ → Prop}
    (hRefl : ∀ s, rel s s) (hTrans : ∀ {s t u}, rel s t → rel t u → rel s u)
    {items : List α} (hStep : ∀ s a, a ∈ items → rel s (f s a)) (s : σ) :
    rel s (items.foldl f s) := by
  induction items generalizing s with
  | nil => exact hRefl s
  | cons a rest ih =>
      have hTail := ih (fun s a ha => hStep s a (List.mem_cons_of_mem _ ha)) (f s a)
      exact hTrans (hStep s a List.mem_cons_self) hTail

/-- A loop whose turns meet a condition preserves what such turns preserve. -/
theorem Along.invariant {f : σ → α → Except ε σ} {ok : σ → α → Prop} {inv : σ → Prop}
    (hStep : ∀ s a t, ok s a → inv s → f s a = .ok t → inv t)
    {items : List α} {s t : σ} (hAlong : Along f ok s items) (hInv : inv s)
    (h : items.foldlM f s = .ok t) : inv t := by
  induction items generalizing s with
  | nil =>
      rw [List.foldlM_nil, pure_eq_ok] at h
      exact h ▸ hInv
  | cons a rest ih =>
      rw [List.foldlM_cons, bind_eq_ok] at h
      obtain ⟨u, hFirst, hRest⟩ := h
      exact ih (hAlong.2 u hFirst) (hStep s a u hAlong.1 hInv hFirst) hRest

/-- A fault of such a loop is the fault of one of its turns. -/
theorem Along.fault {f : σ → α → Except ε σ} {ok : σ → α → Prop} {inv : σ → Prop}
    (hStep : ∀ s a t, ok s a → inv s → f s a = .ok t → inv t)
    {items : List α} {s : σ} {e : ε} (hAlong : Along f ok s items) (hInv : inv s)
    (h : items.foldlM f s = .error e) : ∃ t a, ok t a ∧ inv t ∧ f t a = .error e := by
  induction items generalizing s with
  | nil => cases h
  | cons a rest ih =>
      rw [List.foldlM_cons] at h
      rcases bind_eq_error h with hHere | ⟨u, hFirst, hRest⟩
      · exact ⟨s, a, hAlong.1, hInv, hHere⟩
      · exact ih (hAlong.2 u hFirst) (hStep s a u hAlong.1 hInv hFirst) hRest

/-- The computation ends in a value, and the value has the property. -/
def Returns (x : Except ε σ) (post : σ → Prop) : Prop := ∃ a, x = .ok a ∧ post a

namespace Returns

variable {x : Except ε σ} {post : σ → Prop}

theorem ok {a : σ} (h : post a) : Returns (.ok a : Except ε σ) post := ⟨a, rfl, h⟩

theorem pure {a : σ} (h : post a) : Returns (Pure.pure a : Except ε σ) post := ⟨a, rfl, h⟩

theorem bind {f : σ → Except ε τ} {post' : τ → Prop} (hFirst : Returns x post)
    (hNext : ∀ a, post a → Returns (f a) post') : Returns (x >>= f) post' := by
  obtain ⟨a, rfl, hPost⟩ := hFirst
  exact hNext a hPost

theorem mono {post' : σ → Prop} (h : Returns x post) (hPost : ∀ a, post a → post' a) :
    Returns x post' := by
  obtain ⟨a, hValue, ha⟩ := h
  exact ⟨a, hValue, hPost a ha⟩

theorem not_error (h : Returns x post) (e : ε) : x ≠ .error e := by
  obtain ⟨a, rfl, _⟩ := h
  intro hError
  cases hError

/-- A loop whose turns all return keeps what they keep. -/
theorem foldlM {f : σ → α → Except ε σ} {items : List α}
    (hTurn : ∀ s a, a ∈ items → post s → Returns (f s a) post) {s : σ} (h : post s) :
    Returns (items.foldlM f s) post := by
  induction items generalizing s with
  | nil => exact Returns.pure h
  | cons a rest ih =>
      rw [List.foldlM_cons]
      refine (hTurn s a List.mem_cons_self h).bind fun t ht => ?_
      exact ih (fun u b hb => hTurn u b (List.mem_cons_of_mem _ hb)) ht

end Returns

/-- The computation ends in the one fault that is named, or in a value with the
property. -/
def ReturnsOr (e : ε) (x : Except ε σ) (post : σ → Prop) : Prop :=
  x = .error e ∨ Returns x post

theorem ReturnsOr.bind {e : ε} {x : Except ε σ} {post : σ → Prop} {f : σ → Except ε τ}
    {post' : τ → Prop} (hFirst : ReturnsOr e x post)
    (hNext : ∀ a, post a → ReturnsOr e (f a) post') : ReturnsOr e (x >>= f) post' := by
  rcases hFirst with rfl | ⟨a, rfl, hPost⟩
  · exact .inl rfl
  · exact hNext a hPost

end Sassrv.Partial
