import Brainfuck.Proofs.Steps
import Brainfuck.Proofs.Usage

/-! Foretelling. The number of steps that is told of a new session is that of its machine, up to the cap of dry
runs. If it is not capped, no state that is ever shown counts more steps, and a run to the end counts as many, if the
step limit lets it; and if it is, the session has as many steps to take. -/
namespace Brainfuck

namespace Json

def at? (name : String) : Json → Option Json
  | .object members => member? members name
  | _ => none

def items : Json → List Json
  | .array xs => xs
  | _ => []

/-- The number of steps that a state tells. -/
def step? (x : Json) : Option Int :=
  match x.at? "step" with
  | some (.integer n) => some n
  | _ => none

end Json

namespace Api

/-- All states that a response shows: the current one, those that a request went through, and the history. -/
def Response.states (response : Response) : List Json :=
  match response.content with
  | .json x =>
    (x.at? "state").toList ++ (x.at? "states").elim [] Json.items ++ (x.at? "history").elim [] Json.items
  | .text _ => []

/-- No state that a response shows counts more steps than so many. -/
def Response.Within (total : Int) (response : Response) : Prop :=
  ∀ x ∈ response.states, ∃ n, x.step? = some n ∧ n ≤ total

namespace Response
variable {status : Nat} {r : Record} {xs : List Snapshot} {total : Int}

theorem within_states (h : ∀ x ∈ xs, x.step ≤ total) :
    ∀ x ∈ xs.map Payload.ofSnapshot, ∃ n, x.step? = some n ∧ n ≤ total := by
  intro x hx
  obtain ⟨y, hy, rfl⟩ := List.mem_map.mp hx
  exact ⟨y.step, rfl, h y hy⟩

theorem within_ofRecord (hcurrent : r.session.current.step ≤ total)
    (hhistory : ∀ x ∈ r.session.history, x.step ≤ total) :
    (⟨status, .json (Payload.ofRecord r)⟩ : Response).Within total := by
  have hstates : ∀ x ∈ r.session.current :: r.session.history.toList, x.step ≤ total := by
    intro x hx
    obtain rfl | hx := List.mem_cons.mp hx
    · exact hcurrent
    · exact hhistory x (Array.mem_toList_iff.mp hx)
  exact within_states hstates

theorem within_ofSteps (hxs : ∀ x ∈ xs, x.step ≤ total)
    (hhistory : ∀ x ∈ r.session.history, x.step ≤ total) :
    (⟨status, .json (Payload.ofSteps r xs)⟩ : Response).Within total := by
  have hstates : ∀ x ∈ xs ++ r.session.history.toList, x.step ≤ total := by
    intro x hx
    obtain hx | hx := List.mem_append.mp hx
    · exact hxs x hx
    · exact hhistory x (Array.mem_toList_iff.mp hx)
  have hwithin := within_states hstates
  rw [List.map_append] at hwithin
  exact hwithin

theorem within_detailed (status : Nat) (detail : Json) : (detailed status detail).Within total :=
  nofun

theorem within_refused {refusal : Refusal} {response : Response} (h : refused refusal = .ok response) :
    response.Within total := by
  unfold refused at h
  split at h
  · obtain rfl := Except.ok.inj h
    exact within_detailed _ _
  · dsimp only at h
    split at h
    · cases h
    · cases h
    · split at h
      · cases h
      · obtain rfl := Except.ok.inj h
        exact within_detailed _ _

end Response

open Debugger (Setup Session)
open Debugger.Session (Counted)

/-- Also where breakpoints are put aside, a run shows the states up to that of the session. -/
theorem Service.runSession_counted {N : ℕ∞} {s : Session} (h : Counted N s) (fuel : ℕ) (bound : Option Int)
    (ignore : Bool) :
    Counted N (runSession fuel s bound ignore).1 ∧
      ∀ xs, (runSession fuel s bound ignore).2 = .ok xs →
        (∀ x ∈ xs, x.step ≤ (runSession fuel s bound ignore).1.current.step) ∧
          ∀ x, xs.getLast? = some x → x = (runSession fuel s bound ignore).1.current := by
  cases ignore with
  | false =>
    refine ⟨h.call (.run fuel bound), ?_⟩
    intro xs hxs
    exact h.shown (c := .run fuel bound) (Prod.ext rfl hxs)
  | true =>
    have hbare := h.marked {} none
    have hrun := hbare.call (.run fuel bound)
    simp only [Session.call] at hrun
    rcases hcall : Session.runUntilBreak fuel { s with breakpoints := {}, hit := none } bound with ⟨t, y⟩
    rw [hcall] at hrun
    simp only [runSession, hcall, if_true]
    refine ⟨hrun.marked s.breakpoints none, ?_⟩
    rintro xs rfl
    exact hbare.shown (c := .run fuel bound) hcall

namespace Task
variable {N : ℕ∞} {total fuel : ℕ} {r : Record} {response : Response}

section Within
variable (hle : N ≤ total)
include hle

theorem shown_within (h : Counted N r.session) (hok : (shown r).2 = .ok response) : response.Within total := by
  obtain ⟨rfl, -⟩ := Response.ofValue_ok hok 200
  obtain ⟨hcurrent, hhistory⟩ := h.step_le hle
  exact Response.within_ofRecord hcurrent hhistory

theorem moved_within {t : Session} {y : Except Stop (List Snapshot)} (h : Counted N t)
    (hxs : ∀ xs, y = .ok xs → ∀ x ∈ xs, x.step ≤ t.current.step) (hok : (moved r (t, y)).2 = .ok response) :
    response.Within total := by
  obtain ⟨hcurrent, hhistory⟩ := h.step_le hle
  simp only [moved, concluded] at hok
  split at hok
  · next xs =>
    obtain ⟨rfl, -⟩ := Response.ofValue_ok hok 200
    refine Response.within_ofSteps ?_ hhistory
    intro x hx
    exact Int.le_trans (hxs xs rfl x hx) hcurrent
  · split at hok
    · obtain rfl := Except.ok.inj hok
      exact Response.within_detailed _ _
    · cases hok
  · cases hok

/-- Whatever is asked of a session, it shows no state beyond the last instruction that its machine completes. -/
theorem perform_within {setup : Setup} (hcounted : ∀ s, Session.InUse setup s → Counted N s)
    (h : Session.InUse setup r.session) {t : Task} (hok : (t.perform fuel r).2 = .ok response) :
    response.Within total := by
  cases t with
  | view => exact shown_within hle (hcounted _ h) hok
  | delete =>
    obtain rfl := Except.ok.inj hok
    exact nofun
  | reset => exact shown_within hle (hcounted _ (h.replaced {}).restart) hok
  | step count =>
    refine moved_within hle (hcounted _ (h.call (.step count))) ?_ hok
    intro xs hxs
    exact ((hcounted _ h).shown (c := .step count) (Prod.ext rfl hxs)).1
  | run bound ignore =>
    obtain ⟨hrun, hshown⟩ := Service.runSession_counted (hcounted _ h) fuel bound ignore
    exact moved_within hle hrun (fun xs hxs => (hshown xs hxs).1) hok
  | add p => exact shown_within hle (hcounted _ (h.call (.add p))) hok
  | remove p =>
    obtain hremove | ⟨detail, hremove⟩ := perform_remove fuel r p
    · rw [hremove] at hok
      exact shown_within hle (hcounted _ (h.call (.remove p))) hok
    · rw [hremove] at hok
      obtain rfl := Except.ok.inj hok
      exact Response.within_detailed _ _

end Within

theorem missing_within (t : Task) {id : String} {total : Int} : (t.missing id).Within total := by
  cases t <;> exact Response.within_detailed _ _

theorem status_concluded_error {e : Stop} (h : concluded r (.error e) = .ok response) : response.status = 409 := by
  unfold concluded at h
  split at h
  · next he => cases he
  · split at h
    · obtain rfl := Except.ok.inj h
      rfl
    · cases h
  · cases h

theorem concluded_ne_unfinished {y : Except Stop (List Snapshot)} (h : y ≠ .error .unfinished) :
    concluded r y ≠ .error .unfinished := by
  intro hcut
  unfold concluded at hcut
  split at hcut
  · unfold Response.ofValue at hcut
    split at hcut
    · cases hcut
    · cases hcut
  · split at hcut
    · cases hcut
    · cases hcut
  · exact h rfl

/-- How a run in which breakpoints do not count comes to its end, which leaves `r` and is answered by `y`: if it
is not bounded it does, and where it does the last step is the one that was foretold, if there has been any. -/
structure Arrives (total : Int) (fuel : ℕ) (bound : Option Int) (r : Record) (y : Except Stop Response) : Prop where
  ends : bound = none → total + 1 < fuel → r.session.finished = true ∧ y ≠ .error .unfinished
  current : r.session.finished = true → r.session.current.step = total
  last : r.session.finished = true → ∀ response, y = .ok response →
    response.status = 409 ∨ ∃ xs, response = ⟨200, .json (Payload.ofSteps r xs)⟩ ∧
      ∀ x, xs.getLast? = some x → x.step = total

section Ignoring
variable (h : Counted N r.session) (hl : ∀ l, r.session.initial.maxSteps = some l → (total : Int) ≤ l)
include h hl

theorem run_arrives (hN : N = total) (fuel : ℕ) (bound : Option Int) :
    ∃ r', (perform fuel r (.run bound true)).1 = some r' ∧
      Arrives total fuel bound r' (perform fuel r (.run bound true)).2 := by
  obtain ⟨hrun, hshown⟩ := Service.runSession_counted h fuel bound true
  have hinitial := (Service.runSession_sameConfiguration fuel r.session bound true).initial
  have hends : bound = none → (total : Int) + 1 < fuel →
      (Service.runSession fuel r.session bound true).1.finished = true ∧
        (Service.runSession fuel r.session bound true).2 ≠ .error .unfinished := by
    rintro rfl hfuel
    obtain ⟨t, y, hrun, hy, hf⟩ := (h.marked {} none).exists_end rfl rfl hN.le (show total + 1 < fuel by omega)
    simp only [Service.runSession, hrun, if_true]
    exact ⟨hf, hy⟩
  have hcurrent : (Service.runSession fuel r.session bound true).1.finished = true →
      (Service.runSession fuel r.session bound true).1.current.step = total := by
    intro hf
    have hle := (hrun.step_le hN.le).1
    have hge := hrun.le_step hN.ge (hinitial ▸ hl) hf
    omega
  refine ⟨_, rfl, ?_, hcurrent, ?_⟩
  · intro hb hfuel
    obtain ⟨hf, hy⟩ := hends hb hfuel
    exact ⟨hf, concluded_ne_unfinished hy⟩
  · intro hf response hok
    cases hy : (Service.runSession fuel r.session bound true).2 with
    | error e =>
      simp only [perform, moved, hy] at hok
      exact Or.inl (status_concluded_error hok)
    | ok xs =>
      simp only [perform, moved, hy] at hok
      obtain ⟨rfl, -⟩ := Response.ofValue_ok hok 200
      refine Or.inr ⟨xs, rfl, ?_⟩
      intro x hx
      rw [(hshown xs hy).2 x hx, hcurrent hf]

/-- As long as so many steps are left, a session takes them. -/
theorem run_takes (hle : total ≤ N) {n : Int} (hn : 1 ≤ n) (hsum : r.session.current.step + n ≤ total) (fuel : ℕ) :
    ∃ r' xs, perform fuel r (.run (some n) true) = (some r', Response.ofValue 200 (Payload.ofSteps r' xs)) ∧
      xs.map Snapshot.step = (List.range n.toNat).map fun i : ℕ => r.session.current.step + 1 + i := by
  obtain ⟨k, rfl⟩ := Int.eq_ofNat_of_zero_le (show 0 ≤ n by omega)
  obtain ⟨t, xs, hstride, hsteps⟩ :=
    (h.marked {} none).exists_strides rfl hle hl (show 0 < k by omega) hsum
  refine ⟨{ r with session := { t with breakpoints := r.session.breakpoints, hit := none } }, xs, ?_, hsteps⟩
  simp only [perform, moved, Service.runSession, Session.runUntilBreak_some, hstride, if_true]
  rfl

end Ignoring

end Task

/-- What is told of a new session whose machine, `m` without a limit, completes `N` instructions: their number, as
long as it is no greater than the cap of dry runs. -/
structure Record.Told (q : Record) (setup : Setup) (m : Machine) (N : ℕ∞) (total : ℕ) : Prop where
  start : Session.start setup = .ok q.session
  machine : (setup.withLimit none).machine (.ofSource setup.code) = .ok m
  completes : m.Completes N
  totalSteps : q.totalSteps = total
  counts : total = min N DryRun.defaultCap.toNat
  capped : q.capped = true ↔ DryRun.defaultCap.toNat ≤ N

namespace Record.Told
variable {q : Record} {setup : Setup} {m : Machine} {N : ℕ∞} {total : ℕ}

theorem total_le (h : q.Told setup m N total) : total ≤ N := by
  rw [h.counts]
  exact min_le_left _ _

theorem eq_total (h : q.Told setup m N total) (hc : q.capped = false) : N = total := by
  have hlt : N < DryRun.defaultCap.toNat := by
    rw [← not_le, ← h.capped, hc]
    simp
  rw [h.counts, min_eq_left hlt.le]

end Record.Told

theorem DryRun.exists_total {program : Program} {setup : Setup} {m : Machine} {N : ℕ∞}
    (hi : ∀ v ∈ setup.input, ∃ n, v = .integer n) (hv : program.validate = .ok ())
    (hm : (setup.withLimit none).machine program = .ok m) (hN : m.Completes N) (cap : ℕ) :
    ∃ d, ∃ total : ℕ, DryRun.of program setup (.ok (cap : Int)) = .ok d ∧ d.total = total ∧ total = min N cap ∧
      (d.capped = true ↔ cap ≤ N) := by
  obtain ⟨d, hd, htotal, hcapped⟩ := of_completes hi hv hm hN cap
  obtain ⟨total, hcounts⟩ := ENat.ne_top_iff_exists.mp
    (ne_top_of_le_ne_top (ENat.natCast_ne_top cap) (min_le_right N (cap : ℕ∞)))
  exact ⟨d, total, hd, htotal total hcounts.symm, hcounts, hcapped⟩

namespace Service

theorem creation_counts {id : String} {code : Json.Literal} {setup : Setup} {q : Record} {d : DryRun}
    (h : (creation id code setup).1 = some q)
    (hd : DryRun.of q.session.initial.program setup (.ok DryRun.defaultCap) = .ok d) :
    q.totalSteps = d.total ∧ q.capped = d.capped := by
  obtain ⟨-, hs⟩ := creation_begin h
  simp only [creation, hs, hd] at h
  have hq := Option.some.inj h
  exact ⟨(congrArg Record.totalSteps hq).symm, (congrArg Record.capped hq).symm⟩

theorem exists_told {id : String} {code : Json.Literal} {setup : Setup} {q : Record}
    (hi : ∀ v ∈ setup.input, ∃ n, v = .integer n) (h : (creation id code setup).1 = some q) :
    ∃ m N total, q.Told setup m N total := by
  obtain ⟨-, hstart⟩ := creation_begin h
  obtain ⟨hvalid, hmachine⟩ := (Session.InUse.start hstart).configured
  have hm := Setup.machine_unlimited hmachine
  obtain ⟨N, hN⟩ := (q.session.initial.withLimit none).exists_completes
  obtain ⟨d, total, hd, htotal, hcounts, hcapped⟩ :=
    DryRun.exists_total hi hvalid hm hN DryRun.defaultCap.toNat
  have hprogram : q.session.initial.program = .ofSource setup.code := by
    obtain ⟨tape, limit, -, -, hinitial⟩ := Setup.machine_ok hmachine
    obtain ⟨hinitial, -⟩ := Machine.start_ok hinitial
    rw [hinitial]
  obtain ⟨htotal', hcapped'⟩ := creation_counts h (hprogram ▸ hd)
  refine ⟨_, N, total, hstart, hm, hN, htotal'.trans htotal, hcounts, ?_⟩
  rw [hcapped']
  exact hcapped

/-- What is told of a new session in the service `v`, where it is `q`, by the answer `created`, comes true, whatever
is asked of it and of others. The total stays, and so does the flag. If it is not set, no state that is shown counts
more steps than the total, and a run in which breakpoints do not count comes to its end behind as many, if the limit
of the session lets it. If it is set, the session takes as many, likewise. -/
structure Foretold (files : Option Files) (id : String) (v : Service) (created : Except Stop Response)
    (q : Record) (limit : Option Int) : Prop where
  told : ∀ response, created = .ok response → response = ⟨201, .json (Payload.ofRecord q)⟩
  kept : ∀ fuel requests r, (v.after fuel requests).find id = some r → q.Keeps r
  shown : q.capped = false → (∀ response, created = .ok response → response.Within q.totalSteps) ∧
    ∀ fuel requests request response, request.names files.isSome id = true →
      ((v.after fuel requests).answer fuel request).2 = .ok response → response.Within q.totalSteps
  arrives : q.capped = false → (∀ l, limit = some l → q.totalSteps ≤ l) →
    ∀ fuel requests r bound request, (v.after fuel requests).find id = some r →
      request.task? files.isSome = some (id, .ok (.run bound true)) →
        ∃ r', ((v.after fuel requests).answer fuel request).1.find id = some r' ∧
          Task.Arrives q.totalSteps fuel bound r' ((v.after fuel requests).answer fuel request).2
  takes : q.capped = true → (∀ l, limit = some l → q.totalSteps ≤ l) →
    ∀ fuel requests r n request, (v.after fuel requests).find id = some r →
      request.task? files.isSome = some (id, .ok (.run (some n) true)) →
        r.session.current.step + n ≤ q.totalSteps →
          ∃ r' xs, ((v.after fuel requests).answer fuel request).1.find id = some r' ∧
            ((v.after fuel requests).answer fuel request).2 = Response.ofValue 200 (Payload.ofSteps r' xs) ∧
            xs.map Snapshot.step = (List.range n.toNat).map fun i : ℕ => r.session.current.step + 1 + i

variable {fresh : ℕ → String} {room : Room} {files : Option Files} {id : String} {v : Service} {k fuel : ℕ}
  {q : Record} {setup : Setup} {m : Machine} {N : ℕ∞} {total : ℕ} {request : Request} {created : Except Stop Response}

/-- Whatever is asked under the name of a session, no state beyond the last instruction is shown. -/
theorem Sound.answer_within (h : v.Sound fresh room files) (hcounted : ∀ s, Session.InUse setup s → Counted N s)
    (hle : N ≤ total) (hfound : ∀ r, v.find id = some r → Session.InUse setup r.session)
    (hn : request.names files.isSome id = true) {response : Response}
    (hok : (v.answer fuel request).2 = .ok response) : response.Within total := by
  obtain ⟨t, ht⟩ := Request.names_iff.mp hn
  cases t with
  | error refusal =>
    rw [h.answer_of_refused ht] at hok
    exact Response.within_refused hok
  | ok t =>
    rw [(h.performs ht fuel).answer] at hok
    cases hfind : v.find id with
    | none =>
      rw [hfind] at hok
      obtain rfl := Except.ok.inj hok
      exact t.missing_within
    | some r =>
      rw [hfind] at hok
      exact Task.perform_within hle hcounted (hfound r hfind) hok

theorem Sound.foretold (h : v.Sound fresh room files) (hk : k < v.store.created)
    (hi : ∀ v ∈ setup.input, ∃ n, v = .integer n) (hq : v.find (fresh k) = some q) (htold : q.Told setup m N total)
    (hcreated : ∀ response, created = .ok response → Response.ofValue 201 (Payload.ofRecord q) = .ok response) :
    Foretold files (fresh k) v created q q.session.initial.maxSteps := by
  have hfirst : q.Uses setup q := ⟨.refl q, .start htold.start⟩
  have hcounted : ∀ s, Session.InUse setup s → Counted N s :=
    fun s hs => hs.counted hi htold.machine htold.completes
  have huses : ∀ {fuel requests r}, (v.after fuel requests).find (fresh k) = some r → q.Uses setup r := by
    intro fuel requests r hr
    refine h.find_after_of (fun _ _ _ hr' ht => hr'.perform ht) hk ?_ requests r hr
    intro r' hr'
    obtain rfl := Option.some.inj (hq.symm.trans hr')
    exact hfirst
  have htotal := htold.totalSteps
  constructor
  · intro response hok
    exact (Response.ofValue_ok (hcreated response hok) 201).1
  · intro fuel requests r hr
    exact (huses hr).keeps
  · intro hc
    have hN := htold.eq_total hc
    rw [htotal]
    constructor
    · intro response hok
      obtain ⟨rfl, -⟩ := Response.ofValue_ok (hcreated response hok) 201
      obtain ⟨hcurrent, hhistory⟩ := (hcounted _ hfirst.inUse).step_le hN.le
      exact Response.within_ofRecord hcurrent hhistory
    · intro fuel requests request response hn hok
      exact (h.after fuel requests).answer_within hcounted hN.le (fun _ hr => (huses hr).inUse) hn hok
  · intro hc hl fuel requests r bound request hr ht
    rw [htotal] at hl ⊢
    have hperforms := (h.after fuel requests).performs ht fuel
    rw [hr] at hperforms
    rw [← (huses hr).keeps.configuration.initial] at hl
    obtain ⟨r', hr', harrives⟩ := Task.run_arrives (hcounted _ (huses hr).inUse) hl (htold.eq_total hc) fuel bound
    refine ⟨r', hperforms.here.trans hr', ?_⟩
    rw [hperforms.answer]
    exact harrives
  · intro _ hl fuel requests r n request hr ht hsum
    rw [htotal] at hl hsum
    have hperforms := (h.after fuel requests).performs ht fuel
    rw [hr] at hperforms
    rw [← (huses hr).keeps.configuration.initial] at hl
    obtain ⟨r', xs, hrun, hsteps⟩ :=
      Task.run_takes (hcounted _ (huses hr).inUse) hl htold.total_le (Request.run_limit ht n rfl) hsum fuel
    exact ⟨r', xs, hperforms.here.trans (congrArg Prod.fst hrun),
      hperforms.answer.trans (congrArg Prod.snd hrun), hsteps⟩

end Service

end Api

end Brainfuck
