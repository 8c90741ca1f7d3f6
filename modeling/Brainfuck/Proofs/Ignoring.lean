import Brainfuck.Proofs.Restart
import Brainfuck.Proofs.Stopping

/-! Ignoring. A run that ignores the breakpoints of its session is the run of a session that has none, and it leaves
them as they were. -/
namespace Brainfuck

namespace Debugger.Session
variable {s : Session} {fuel : Nat} {limit : Option Int}

theorem Strides.unhit {n : Nat} {shown : List Snapshot} {r : Session × Except Stop (List Snapshot)}
    (h : Strides {} n shown r) : r.1.hit = none := by
  have hunmarked : ∀ x : Snapshot, ¬ x.Marked {} := by
    intro x hx
    have hmem := hx.2
    simp [Breakpoints.contains] at hmem
  cases hr : r.2 with
  | error e => exact h.raised e hr
  | ok ys =>
    obtain ⟨xs, -, hstops⟩ := h.returned ys hr
    rw [Option.eq_none_iff_forall_ne_some]
    intro p hp
    obtain ⟨x, -, hx, -⟩ := (hstops.hit p).mp hp
    exact hunmarked x hx

/-- Without breakpoints none is hit. -/
theorem stepForward_unhit (hs : s.breakpoints = {}) {n : Int} (hn : 1 ≤ n) :
    (s.stepForward n).1.hit = none := by
  have hstrides := s.stepForward_strides hn
  rw [hs] at hstrides
  exact hstrides.unhit

theorem runUntilBreak_unhit (hs : s.breakpoints = {}) (hasks : Call.Asks (.run fuel limit)) :
    (s.runUntilBreak fuel limit).1.hit = none := by
  rw [runUntilBreak_session]
  exact stepForward_unhit hs hasks

/-- What was hit before a run plays no part in it. -/
theorem runUntilBreak_forgets (s : Session) (hit : Option Int) (hasks : Call.Asks (.run fuel limit)) :
    { s with hit }.runUntilBreak fuel limit = s.runUntilBreak fuel limit := by
  cases limit with
  | none =>
    have hfuel : (1 : Int) ≤ fuel := hasks
    obtain ⟨n, rfl⟩ : ∃ n, fuel = n + 1 := Nat.exists_eq_succ_of_ne_zero (by omega)
    rfl
  | some k =>
    have hpos : ¬ k ≤ 0 := Int.not_le.mpr hasks
    rw [runUntilBreak_some, runUntilBreak_some]
    unfold stepForward
    rw [if_neg hpos, if_neg hpos]

end Debugger.Session

/-- A value without the members of a name. -/
def Json.omitting (name : String) : Json → Json
  | .object members => .object (members.filter fun m => m.1 != .whole name)
  | x => x

namespace Api

namespace Service
open Debugger (Session)
variable {fuel : Nat} {limit : Option Int}

/-- A run that ignores breakpoints is that of a session without them, to which they are given back. -/
theorem runSession_ignoring (s : Session) (hit : Option Int) (hasks : Session.Call.Asks (.run fuel limit)) :
    ∃ t y, runSession fuel { s with breakpoints := {}, hit } limit false = (t, y) ∧ t.hit = none ∧
      runSession fuel s limit true = ({ t with breakpoints := s.breakpoints }, y) := by
  have hforgets := Session.runUntilBreak_forgets { s with breakpoints := {}, hit := none } hit hasks
  have hunhit : (Session.runUntilBreak fuel { s with breakpoints := {}, hit := none } limit).1.hit = none :=
    Session.runUntilBreak_unhit rfl hasks
  rcases hrun : Session.runUntilBreak fuel { s with breakpoints := {}, hit := none } limit with ⟨t, y⟩
  rw [hrun] at hforgets hunhit
  refine ⟨t, y, hforgets, hunhit, ?_⟩
  simp only [runSession, hrun, if_true]
  rw [← hunhit]

/-- A run that is not cut off may take a step at least. -/
theorem asks_of_runSession {s : Session} {ignore : Bool} (hlimit : ∀ k, limit = some k → 1 ≤ k)
    (hends : (runSession fuel s limit ignore).2 ≠ .error .unfinished) :
    Session.Call.Asks (.run fuel limit) := by
  cases limit with
  | some k => exact hlimit k rfl
  | none =>
    have hfuel : fuel ≠ 0 := by
      rintro rfl
      cases ignore with
      | false => exact hends rfl
      | true => exact hends rfl
    have hpos : (1 : Int) ≤ fuel := by omega
    exact hpos

end Service

theorem Body.run_limit {ms : Json.Members} {limit : Option Int} {ignore : Bool} {k : Int}
    (h : Body.run ms = .ok (limit, ignore)) (hk : limit = some k) : 1 ≤ k := by
  subst hk
  unfold Body.run at h
  dsimp only at h
  split at h
  · next hlimit _ =>
    obtain ⟨rfl, -⟩ := Prod.mk.inj (Except.ok.inj h)
    unfold Field.optional at hlimit
    split at hlimit
    · cases hlimit
    · unfold Field.optionalIntegerFrom at hlimit
      split at hlimit
      · cases hlimit
      · obtain ⟨n, hn, heq⟩ := exists_of_map_ok hlimit
        obtain rfl := Option.some.inj heq
        exact Field.le_of_integerFrom hn
  · cases h

/-- A run that is asked for has a limit of one step at least, if it has a limit. -/
theorem Request.run_limit {files ignore : Bool} {id : String} {request : Request} {limit : Option Int}
    (h : request.task? files = some (id, .ok (.run limit ignore))) : ∀ k, limit = some k → 1 ≤ k := by
  intro k hk
  cases Request.sends h with
  | run hbody =>
    obtain ⟨ms, -, hrun⟩ := exists_of_bind_ok hbody
    exact Body.run_limit hrun hk

def Response.omitting (name : String) (response : Response) : Response :=
  match response.content with
  | .json value => { response with content := .json (value.omitting name) }
  | .text _ => response

theorem gapAmong_integers (ns : List Int) : Json.gapAmong? (ns.map Json.integer) = none := by
  induction ns with
  | nil => rfl
  | cons n ns ih =>
    rw [List.map_cons, Json.gapAmong?, ih]
    rfl

/-- Breakpoints do not stand in the way of an answer. -/
theorem Payload.gap_ofSteps (r : Record) (breakpoints : Breakpoints) (xs : List Snapshot) :
    (ofSteps { r with session := { r.session with breakpoints } } xs).gap? = (ofSteps r xs).gap? := by
  simp [ofSteps, common, Json.gap?, Json.gapInMembers?, gapAmong_integers]

theorem Payload.omitting_ofSteps (r : Record) (breakpoints : Breakpoints) (xs : List Snapshot) :
    (ofSteps { r with session := { r.session with breakpoints } } xs).omitting "breakpoints" =
      (ofSteps r xs).omitting "breakpoints" := by
  simp [ofSteps, common, Json.omitting]

/-- The breakpoints of a session play no part in what is told of a run, but where they are listed. -/
theorem Task.omitting_concluded (r : Record) (breakpoints : Breakpoints) (y : Except Stop (List Snapshot)) :
    (concluded { r with session := { r.session with breakpoints } } y).map (Response.omitting "breakpoints") =
      (concluded r y).map (Response.omitting "breakpoints") := by
  cases y with
  | error e => cases e <;> rfl
  | ok xs =>
    have hgap := Payload.gap_ofSteps r breakpoints xs
    have hsame := Payload.omitting_ofSteps r breakpoints xs
    unfold concluded Response.ofValue
    dsimp only
    rw [hgap]
    cases (Payload.ofSteps r xs).gap? with
    | some gap => rfl
    | none =>
      simp only [Except.map, Response.omitting]
      rw [hsame]

theorem Task.concluded_ok {r : Record} {y : Except Stop (List Snapshot)} {response : Response}
    (h : concluded r y = .ok response) :
    response.status = 409 ∨ ∃ xs, response = ⟨200, .json (Payload.ofSteps r xs)⟩ := by
  unfold concluded at h
  split at h
  · next xs =>
    obtain ⟨rfl, -⟩ := Response.ofValue_ok h 200
    exact Or.inr ⟨xs, rfl⟩
  · split at h
    · obtain rfl := Except.ok.inj h
      exact Or.inl rfl
    · cases h
  · cases h

/-- What a run that ignored the breakpoints of the session `r` has left of it, `r'`, and its answer `y`, beside what
the same run has left of the session without breakpoints, `q'`, and its answer `z`. -/
structure LeavesNoTrace (r r' q' : Record) (y z : Except Stop Response) : Prop where
  breakpoints : r'.session.breakpoints = r.session.breakpoints
  hit : r'.session.hit = none
  session : r' = { q' with session := { q'.session with breakpoints := r.session.breakpoints } }
  answer : y.map (Response.omitting "breakpoints") = z.map (Response.omitting "breakpoints")
  told : ∀ response, y = .ok response →
    response.status = 409 ∨ ∃ xs, response = ⟨200, .json (Payload.ofSteps r' xs)⟩

variable {fuel : Nat} {limit : Option Int}

theorem Task.run_leavesNoTrace {r : Record} (hit : Option Int) (hlimit : ∀ k, limit = some k → 1 ≤ k)
    (hends : (perform fuel r (.run limit true)).2 ≠ .error .unfinished) :
    ∃ r' q' y z, perform fuel r (.run limit true) = (some r', y) ∧
      perform fuel { r with session := { r.session with breakpoints := {}, hit } } (.run limit false) =
        (some q', z) ∧ LeavesNoTrace r r' q' y z := by
  have hrun : (Service.runSession fuel r.session limit true).2 ≠ .error .unfinished := by
    intro hcut
    refine hends ?_
    simp only [perform, moved, hcut, concluded]
  obtain ⟨t, y, hplain, hunhit, hignoring⟩ :=
    Service.runSession_ignoring r.session hit (Service.asks_of_runSession hlimit hrun)
  simp only [perform, moved, hplain, hignoring]
  refine ⟨_, _, _, _, rfl, rfl, ?_⟩
  constructor
  · rfl
  · exact hunhit
  · rfl
  · exact omitting_concluded { r with session := t } r.session.breakpoints y
  · intro response hok
    exact concluded_ok hok

namespace Service
variable {fresh : Nat → String} {room : Room} {files : Option Files} {id : String} {v w : Service} {r : Record}
  {ignoring plain : Request}

/-- A run that ignores breakpoints and comes to an end leaves no trace of having ignored them. The session has the
breakpoints that it had, and has hit none; otherwise it is what the run that heeds breakpoints makes of the session
without any, and so is the answer. -/
theorem ignoring_leaves_no_trace (hfresh : Function.Injective fresh) {fuel₀ : Nat} {before : List Request}
    (hv : (vacant fresh room files 0).after fuel₀ before = v) (hr : v.find id = some r)
    (hw : w.Sound fresh room files) {hit : Option Int}
    (hq : w.find id = some { r with session := { r.session with breakpoints := {}, hit } })
    (hignoring : ignoring.task? files.isSome = some (id, .ok (.run limit true)))
    (hplain : plain.task? files.isSome = some (id, .ok (.run limit false)))
    (hends : (v.answer fuel ignoring).2 ≠ .error .unfinished) :
    ∃ r' q', (v.answer fuel ignoring).1.find id = some r' ∧ (w.answer fuel plain).1.find id = some q' ∧
      LeavesNoTrace r r' q' (v.answer fuel ignoring).2 (w.answer fuel plain).2 := by
  have hsound : v.Sound fresh room files := hv ▸ (sound_vacant hfresh room files 0).after fuel₀ before
  obtain ⟨hanswer, hhere, -⟩ := hsound.performs hignoring fuel
  obtain ⟨hanswer', hhere', -⟩ := hw.performs hplain fuel
  rw [hr] at hanswer hhere
  rw [hq] at hanswer' hhere'
  rw [hanswer] at hends
  obtain ⟨r', q', y, z, hrun, hrun', htrace⟩ :=
    Task.run_leavesNoTrace hit (Request.run_limit hignoring) hends
  simp only [Task.outcome, hrun, hrun'] at hanswer hhere hanswer' hhere'
  rw [hanswer, hanswer']
  exact ⟨r', q', hhere, hhere', htrace⟩

def add (id : String) (p : Nat) : Request :=
  ⟨"POST", s!"/api/session/{id}/breakpoints", s!"\x7b\"pc\":{p}\x7d".toUTF8.toList⟩

def remove (id : String) (p : Nat) : Request :=
  ⟨"DELETE", s!"/api/session/{id}/breakpoints/{p}", []⟩

def run (id : String) (ignore : Bool) : Request :=
  ⟨"POST", s!"/api/session/{id}/run", s!"\x7b\"ignore_breakpoints\":{ignore}\x7d".toUTF8.toList⟩

theorem run_task (ignore : Bool) : (run "S0" ignore).task? false = some ("S0", .ok (.run none ignore)) := by
  have hroute : (run "S0" ignore).route? false = some (.run "S0") := by
    cases ignore <;> rfl
  have hbody : (Body.members (run "S0" ignore).body >>= Body.run).toOption = some (none, ignore) := by
    cases ignore <;> decide +kernel
  rw [Request.task?, hroute, Option.bind_some, Route.task?, ok_of_toOption hbody]
  rfl

/-- A run over a breakpoint that has been hit before, beside the same run behind its removal. -/
theorem ignoring_leaves_no_trace_of_one :
    let v := (vacant numbered .all none 0).after 5 [increment, add "S0" 1, run "S0" false]
    let w := (v.answer 5 (remove "S0" 1)).1
    ∃ r q r' q', v.find "S0" = some r ∧ r.session.hit = some 1 ∧ w.find "S0" = some q ∧
      q.session.breakpoints = {} ∧ q.session.hit = some 1 ∧
        (v.answer 5 (run "S0" true)).1.find "S0" = some r' ∧ (w.answer 5 (run "S0" false)).1.find "S0" = some q' ∧
          LeavesNoTrace r r' q' (v.answer 5 (run "S0" true)).2 (w.answer 5 (run "S0" false)).2 := by
  intro v w
  have hstart := sound_vacant numbered_injective .all none 0
  have hv : v.Sound numbered .all none := hstart.after 5 _
  have hw : w.Sound numbered .all none := hv.answer 5 _
  have hfound : (v.find "S0").map (fun r => (r.session.breakpoints, r.session.hit)) = some (⟨[1]⟩, some 1) := by
    decide +kernel
  obtain ⟨r, hr, hsession⟩ := Option.map_eq_some_iff.mp hfound
  obtain ⟨hbreakpoints, hhit⟩ := Prod.mk.inj hsession
  have hremoved : r.session.removeBreakpoint 1 =
      ({ r.session with breakpoints := {}, hit := some 1 }, true) := by
    rw [← hhit, Debugger.Session.removeBreakpoint, hbreakpoints]
    rfl
  have hq : w.find "S0" = some { r with session := { r.session with breakpoints := {}, hit := some 1 } } := by
    have htask : (remove "S0" 1).task? false = some ("S0", .ok (.remove 1)) := rfl
    have hhere := (hv.performs htask 5).here
    rw [hr] at hhere
    simp only [Task.outcome, Task.perform, hremoved] at hhere
    exact hhere
  have hends : (v.answer 5 (run "S0" true)).2.toOption.isSome = true := by decide +kernel
  have hends' : (v.answer 5 (run "S0" true)).2 ≠ .error .unfinished := by
    intro hcut
    rw [hcut] at hends
    cases hends
  obtain ⟨r', q', hr', hq', htrace⟩ :=
    ignoring_leaves_no_trace numbered_injective rfl hr hw hq (run_task true) (run_task false) hends'
  exact ⟨r, _, r', q', hr, hhit, hq, rfl, rfl, hr', hq', htrace⟩

end Service

end Api
end Brainfuck
