import Mathlib.Data.List.Basic

/-! Runs of systems that take inputs one at a time. A step that the modelled
code never finishes, or that leaves its memory, is absent from the step
relation, so a run contains completed steps only. -/
namespace Sassrv.Transition

universe u v w
variable {State : Type u} {Input : Type v} {Output : Type w}

/-- Initial states and completed steps. A step consumes one input and emits
the outputs of that call in order. -/
structure System (State : Type u) (Input : Type v) (Output : Type w) where
  init : State → Prop
  step : State → Input → List Output → State → Prop

namespace System

/-- Finitely many consecutive steps, with all inputs and outputs in order. -/
inductive Run (sys : System State Input Output) :
    State → List Input → List Output → State → Prop where
  | nil (s : State) : Run sys s [] [] s
  | snoc {s t u : State} {inputs : List Input} {outputs : List Output}
      {input : Input} {emitted : List Output}
      (prior : Run sys s inputs outputs t) (last : sys.step t input emitted u) :
      Run sys s (inputs ++ [input]) (outputs ++ emitted) u

/-- States that some run reaches from an initial state. -/
def Reachable (sys : System State Input Output) (s : State) : Prop :=
  ∃ start inputs outputs, sys.init start ∧ sys.Run start inputs outputs s

/-- The same system restricted to steps whose input meets a condition on the
state before the step. Its runs are the runs all of whose steps meet it. -/
def guard (sys : System State Input Output) (ok : State → Input → Prop) :
    System State Input Output where
  init := sys.init
  step := fun s input emitted t => ok s input ∧ sys.step s input emitted t

theorem reachable_of_init {sys : System State Input Output} {s : State}
    (h : sys.init s) : sys.Reachable s :=
  ⟨s, [], [], h, Run.nil s⟩

theorem Reachable.step {sys : System State Input Output} {s t : State}
    {input : Input} {emitted : List Output}
    (h : sys.Reachable s) (hStep : sys.step s input emitted t) : sys.Reachable t := by
  obtain ⟨start, inputs, outputs, hInit, hRun⟩ := h
  exact ⟨start, inputs ++ [input], outputs ++ emitted, hInit, Run.snoc hRun hStep⟩

/-- One more step of a restricted system. -/
theorem Reachable.take {sys : System State Input Output} {ok : State → Input → Prop} {s t : State}
    (h : (sys.guard ok).Reachable s) (input : Input) (emitted : List Output)
    (hOk : ok s input) (hStep : sys.step s input emitted t) : (sys.guard ok).Reachable t := by
  have hGuarded : (sys.guard ok).step s input emitted t := ⟨hOk, hStep⟩
  exact h.step hGuarded

theorem Run.take {sys : System State Input Output} {ok : State → Input → Prop} {s t u : State}
    {inputs : List Input} {outputs : List Output} (h : (sys.guard ok).Run s inputs outputs t)
    (input : Input) (emitted : List Output) (hOk : ok t input) (hStep : sys.step t input emitted u) :
    (sys.guard ok).Run s (inputs ++ [input]) (outputs ++ emitted) u := by
  have hGuarded : (sys.guard ok).step t input emitted u := ⟨hOk, hStep⟩
  exact Run.snoc h hGuarded

theorem Run.of_guard {sys : System State Input Output} {ok : State → Input → Prop} {s t : State}
    {inputs : List Input} {outputs : List Output} (h : (sys.guard ok).Run s inputs outputs t) :
    sys.Run s inputs outputs t := by
  induction h with
  | nil => exact Run.nil _
  | snoc _ last ih => exact Run.snoc ih last.2

theorem Reachable.of_guard {sys : System State Input Output} {ok : State → Input → Prop} {s : State}
    (h : (sys.guard ok).Reachable s) : sys.Reachable s := by
  obtain ⟨start, inputs, outputs, hInit, hRun⟩ := h
  exact ⟨start, inputs, outputs, hInit, hRun.of_guard⟩

theorem Run.trans {sys : System State Input Output} {s t u : State}
    {inputs inputs' : List Input} {outputs outputs' : List Output}
    (left : sys.Run s inputs outputs t) (right : sys.Run t inputs' outputs' u) :
    sys.Run s (inputs ++ inputs') (outputs ++ outputs') u := by
  induction right with
  | nil => simpa using left
  | snoc prior last ih =>
      rw [← List.append_assoc, ← List.append_assoc]
      exact Run.snoc ih last

/-- Execute a list of inputs with a partial step function. -/
def runAll (f : State → Input → Option (State × List Output)) (s : State) :
    List Input → Option (State × List Output)
  | [] => some (s, [])
  | input :: rest => do
      let (t, emitted) ← f s input
      let (u, more) ← runAll f t rest
      return (u, emitted ++ more)

/-- An execution whose single steps are steps of the system is a run of it. -/
theorem Run.of_runAll {sys : System State Input Output}
    {f : State → Input → Option (State × List Output)}
    (hf : ∀ s input t emitted, f s input = some (t, emitted) → sys.step s input emitted t)
    {s t : State} {inputs : List Input} {outputs : List Output}
    (h : runAll f s inputs = some (t, outputs)) : sys.Run s inputs outputs t := by
  induction inputs generalizing s outputs with
  | nil =>
      obtain ⟨rfl, rfl⟩ := Prod.mk.inj (Option.some.inj h)
      exact Run.nil _
  | cons input rest ih =>
      simp only [runAll, Option.bind_eq_bind, Option.bind_eq_some_iff, Option.pure_def,
        Option.some.injEq, Prod.mk.injEq] at h
      obtain ⟨⟨m, emitted⟩, hFirst, ⟨u, more⟩, hRest, rfl, rfl⟩ := h
      have hHead : sys.Run s [input] emitted m := Run.snoc (Run.nil s) (hf _ _ _ _ hFirst)
      exact hHead.trans (ih hRest)

/-- What every step preserves, every run preserves. -/
theorem Run.invariant {sys : System State Input Output} {inv : State → Prop}
    (hStep : ∀ s input emitted t, inv s → sys.step s input emitted t → inv t)
    {s t : State} {inputs : List Input} {outputs : List Output}
    (run : sys.Run s inputs outputs t) (h : inv s) : inv t := by
  induction run with
  | nil => exact h
  | snoc prior last ih => exact hStep _ _ _ _ ih last

/-- The same rule for a property of the state and the outputs so far. -/
theorem Run.invariant_outputs {sys : System State Input Output}
    (inv : State → List Output → Prop)
    (hStep : ∀ s sofar input emitted t, inv s sofar → sys.step s input emitted t →
      inv t (sofar ++ emitted))
    {s t : State} {sofar outputs : List Output} {inputs : List Input}
    (run : sys.Run s inputs outputs t) (h : inv s sofar) : inv t (sofar ++ outputs) := by
  induction run with
  | nil => simpa using h
  | snoc prior last ih =>
      rw [← List.append_assoc]
      exact hStep _ _ _ _ _ ih last

/-- The invariant rule for reachable states. -/
theorem Reachable.invariant {sys : System State Input Output} {inv : State → Prop}
    (hInit : ∀ s, sys.init s → inv s)
    (hStep : ∀ s input emitted t, inv s → sys.step s input emitted t → inv t)
    {s : State} (h : sys.Reachable s) : inv s := by
  obtain ⟨start, inputs, outputs, hStart, hRun⟩ := h
  exact hRun.invariant hStep (hInit start hStart)

end System
end Sassrv.Transition
