import Sassrv.Ft.Listening

/-! A listener that calls back. From `on_ft_change` it may call `stop`,
`activate` and `deactivate`, and the notifications of these calls reach it in
turn. -/
namespace Sassrv.Ft
open Transition

namespace Watched

/-- A call from `on_ft_change`. -/
def perform (cb : Listener) (depth : Nat) : FtReaction → Watched → Option Watched
  | .stop, w => w.stop cb depth
  | .activate, w => w.activate cb depth
  | .deactivate, w => w.deactivate cb depth

/-- The listener that follows the script, with at most `nesting` notifications
at work at one time. The sites are those of the notifications at work, the
last one first. It makes a call only where `ok` allows it. -/
def react (ok : List FtSite → FtReaction → Watched → Prop)
    [∀ sites call w, Decidable (ok sites call w)] (depth : Nat) : Nat → List FtSite → Listener
  | 0, _ => fun _ _ => none
  | nesting + 1, sites => fun site w =>
      match w.script with
      | [] => some w
      | calls :: rest =>
          calls.foldlM (fun w call => if ok (site :: sites) call w then
            perform (react ok depth nesting (site :: sites)) depth call w
          else none) { w with script := rest }

end Watched

/-- A call into the instance, and what the listener calls from the
notifications of it. -/
structure FtPlay where
  input : FtInput
  script : List (List FtReaction) := []

/-- One instance with a listener that calls back. -/
def playSystem (ok : List FtSite → FtReaction → Watched → Prop)
    [∀ sites call w, Decidable (ok sites call w)] : System RvFt FtPlay FtMark where
  init := fun f => ∃ client nowNs monoNs param script nesting depth w,
    Watched.start (Watched.react ok depth nesting []) depth param
      { ft := { client, nowNs, monoNs }, script } = some w ∧ w.ft = f
  step := fun f play marks g => f.monoNs ≤ play.input.monoNs ∧ ∃ nesting depth w,
    Watched.dispatch (Watched.react ok depth nesting []) depth play.input.call
      { ft := f.atTime play.input.nowNs play.input.monoNs, script := play.script } = some w ∧
        w.ft = g ∧ w.marks = marks

end Sassrv.Ft
