import Brainfuck.Proofs.Workspace

/-! Structured evaluation of blocks, in which a loop is a loop and there are no positions. -/
namespace Brainfuck

/-- A block evaluates on a workspace `s` to a workspace and a result. An action counts a step, and so does
each test of a loop: the first one, and one behind each turn. -/
inductive Block.Evaluates : Block → Workspace → Workspace → Except Stop Unit → Prop where
  | done {s} : Evaluates .done s s (.ok ())
  | action {a rest s t u r} (ha : a.perform s = (t, .ok ())) (hrest : Evaluates rest t.tick u r) :
      Evaluates (.action a rest) s u r
  | actionFails {a rest s t e} (ha : a.perform s = (t, .error e)) :
      Evaluates (.action a rest) s t (.error e)
  | loopEnds {body rest s u r} (hz : s.current = 0) (hrest : Evaluates rest s.tick u r) :
      Evaluates (.loop body rest) s u r
  | loopTurns {body rest s t u r} (hz : s.current ≠ 0) (hbody : Evaluates body s.tick t (.ok ()))
      (hagain : Evaluates (.loop body rest) t u r) : Evaluates (.loop body rest) s u r
  | loopFails {body rest s t e} (hz : s.current ≠ 0) (hbody : Evaluates body s.tick t (.error e)) :
      Evaluates (.loop body rest) s t (.error e)

namespace Block

/-- The turns of a loop: while the current cell is not nought the body is evaluated. `ts` are the
workspaces behind the turns. -/
def Turns (body : Block) : Workspace → List Workspace → Workspace → Prop
  | s, [], u => s.current = 0 ∧ u = s.tick
  | s, t :: ts, u => s.current ≠ 0 ∧ body.Evaluates s.tick t (.ok ()) ∧ Turns body t ts u

/-- The steps that bodies take in the turns of a loop, without its tests. -/
def bodySteps : Workspace → List Workspace → Int
  | _, [] => 0
  | s, t :: ts => (t.steps - s.tick.steps) + bodySteps t ts

theorem Turns.steps {body : Block} {s u : Workspace} {ts : List Workspace} (h : Turns body s ts u) :
    u.steps = s.steps + 1 + ts.length + bodySteps s ts := by
  induction ts generalizing s with
  | nil =>
    obtain ⟨-, rfl⟩ := h
    simp [bodySteps, Workspace.tick]
  | cons t ts ih =>
    obtain ⟨-, -, hts⟩ := h
    have := ih hts
    simp only [bodySteps, Workspace.tick, List.length_cons]
    omega

/-- A loop is evaluated in turns. With `k` turns it takes `1 + k` steps and those of its bodies. -/
theorem evaluates_loop_iff (body : Block) (s u : Workspace) :
    (Block.loop body .done).Evaluates s u (.ok ()) ↔
      ∃ ts, Turns body s ts u ∧ u.steps = s.steps + 1 + ts.length + bodySteps s ts := by
  constructor
  · intro h
    have hturns : ∃ ts, Turns body s ts u := by
      generalize hb : Block.loop body .done = b at h
      generalize hr : (Except.ok () : Except Stop Unit) = r at h
      induction h with
      | done => cases hb
      | action => cases hb
      | actionFails => cases hb
      | loopEnds hz hrest =>
        cases hb
        cases hrest
        exact ⟨[], hz, rfl⟩
      | loopTurns hz hbody hagain ihb ih =>
        cases hb
        obtain ⟨ts, hts⟩ := ih rfl hr
        exact ⟨_ :: ts, hz, hbody, hts⟩
      | loopFails => cases hr
    obtain ⟨ts, hts⟩ := hturns
    exact ⟨ts, hts, hts.steps⟩
  · rintro ⟨ts, hts, -⟩
    induction ts generalizing s with
    | nil =>
      obtain ⟨hz, rfl⟩ := hts
      exact .loopEnds hz .done
    | cons t ts ih =>
      obtain ⟨hz, hbody, hts⟩ := hts
      exact .loopTurns hz hbody (ih t hts)

theorem Evaluates.valid {b : Block} {s t : Workspace} {r : Except Stop Unit}
    (h : b.Evaluates s t r) (hs : s.Valid) : t.Valid := by
  induction h with
  | done => exact hs
  | action ha hrest ih => exact ih (hs.of_perform ha).tick
  | actionFails ha => exact hs.of_perform ha
  | loopEnds hz hrest ih => exact ih hs.tick
  | loopTurns hz hbody hagain ihb ih => exact ih (ihb hs.tick)
  | loopFails hz hbody ih => exact ih hs.tick

end Block

end Brainfuck
