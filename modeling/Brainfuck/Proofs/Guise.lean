import Brainfuck.Proofs.Change

/-! Guises. No instruction looks at what has happened before, at the step limit, or at which kind of sink
takes its bytes. Machines that differ in nothing else go the same way. -/
namespace Brainfuck

/-- All kinds of sinks but rows take the same values. -/
theorem Sink.accept_of_row_iff {kind kind' : Sink.Kind} (h : kind = .row ↔ kind' = .row) (v : Datum) :
    Sink.accept kind v = Sink.accept kind' v := by
  cases kind with
  | row =>
    obtain rfl := h.mp rfl
    rfl
  | buffer =>
    cases kind' with
    | row => cases h.mpr rfl
    | _ => rfl
  | stream =>
    cases kind' with
    | row => cases h.mpr rfl
    | _ => rfl

namespace Machine

/-- A change of what no instruction looks at: earlier events, another limit, another kind of sink that takes
the same values. -/
structure Guise where
  earlier : Array Event := #[]
  limit : Option Int → Option Int := id
  kind : Sink.Kind → Sink.Kind := id
  kind_row : ∀ k, kind k = .row ↔ k = .row := by simp

def inGuise (m : Machine) (g : Guise) : Machine :=
  { m with
    journal := g.earlier ++ m.journal
    maxSteps := g.limit m.maxSteps
    sink := { m.sink with kind := g.kind m.sink.kind } }

def Guise.dress {α : Type} (g : Guise) (r : Machine × α) : Machine × α :=
  (r.1.inGuise g, r.2)

variable (m : Machine) (g : Guise)

@[simp] theorem record_inGuise (e : Event) : (m.inGuise g).record e = (m.record e).inGuise g := by
  simp [record, inGuise]

private theorem store_inGuise (v : Datum) : (m.inGuise g).store v = g.dress (m.store v) :=
  store_changed (g := (inGuise · g)) rfl rfl (fun _ => rfl) v

private theorem update_inGuise (f : Tape → Int → Int) :
    (m.inGuise g).update f = g.dress (m.update f) :=
  update_changed (g := (inGuise · g)) rfl rfl fun _ _ => m.store_inGuise g _

private theorem receive_inGuise : (m.inGuise g).receive = g.dress m.receive :=
  -- the values passed over are noted behind all earlier events
  receive_changed (g := (inGuise · g)) rfl (fun _ _ => by simp [inGuise, Array.append_assoc])
    fun v x _ _ => x.store_inGuise g v

private theorem send_inGuise : (m.inGuise g).send = g.dress m.send :=
  send_changed (g := (inGuise · g)) rfl (fun v => Sink.accept_of_row_iff (g.kind_row _) v) fun _ => rfl

private theorem jumpIf_inGuise (d : Direction) (test : Int → Bool) :
    (m.inGuise g).jumpIf d test = g.dress (m.jumpIf d test) :=
  jumpIf_changed (g := (inGuise · g)) rfl rfl rfl (fun _ => rfl) d test

/-- An instruction does the same in any guise. -/
theorem perform_inGuise (c : Instruction) : (m.inGuise g).perform c = g.dress (m.perform c) := by
  cases c with
  | right => rfl
  | left => rfl
  | increment => exact m.update_inGuise g _
  | decrement => exact m.update_inGuise g _
  | read => exact m.receive_inGuise g
  | write => exact m.send_inGuise g
  | loopOpen => exact m.jumpIf_inGuise g _ _
  | loopClose => exact m.jumpIf_inGuise g _ _

variable {m g}

/-- So does a cycle, if the limit makes no difference to it. -/
theorem cycle_inGuise (hg : (m.inGuise g).limitReached = m.limitReached) :
    (m.inGuise g).cycle = g.dress m.cycle :=
  cycle_changed (g := (inGuise · g)) hg rfl rfl (fun _ => rfl) fun c _ _ => m.perform_inGuise g c

end Machine

end Brainfuck
