import Brainfuck.Proofs.Breakpoints
import Brainfuck.Proofs.Isolation

/-! Restarts. A session that restarts is a new one with the same breakpoints, and a session that is reset is the
one that was created. -/
namespace Brainfuck

namespace Debugger.Session
variable {setup : Setup} {s : Session}

theorem call_ascending (h : s.breakpoints.Ascending) (c : Call) : (s.call c).1.breakpoints.Ascending := by
  cases c with
  | step count =>
    have hmoves : Moves s (s.call (.step count)).1 := s.stepForward_moves count
    rw [hmoves.breakpoints]
    exact h
  | run fuel limit =>
    have hmoves : Moves s (s.call (.run fuel limit)).1 := runUntilBreak_moves fuel s limit
    rw [hmoves.breakpoints]
    exact h
  | add p => exact h.insert p
  | clear => exact Breakpoints.ascending_empty
  | remove p =>
    simp only [call, removeBreakpoint]
    split
    · exact h.erase p
    · exact h

theorem Reachable.ascending (h : Reachable setup s) : s.breakpoints.Ascending := by
  induction h with
  | start h =>
    obtain ⟨-, m, reach, limit, -, -, -, rfl⟩ := start_ok h
    exact Breakpoints.ascending_empty
  | call h c ih => exact call_ascending ih c
  | restart h ih => exact ih

/-- A session can be started anew from the setup that it came from. -/
theorem Reachable.start_eq (h : Reachable setup s) :
    Session.start setup = .ok (begin s.reach s.historyLimit s.initial {}) := by
  obtain ⟨hvalid, hmachine, hreach, hlimit⟩ := h.configured
  simp only [Session.start, hvalid, hmachine, hreach, hlimit, bind, Except.bind, pure, Except.pure]

theorem after_add (s : Session) (ps : List Int) :
    s.after (ps.map .add) = { s with breakpoints := ps.foldl .insert s.breakpoints } := by
  induction ps generalizing s with
  | nil => rfl
  | cons p ps ih => exact ih (s.addBreakpoint p)

/-- A session that restarts is a new one in which its breakpoints are set, in whatever order. -/
theorem Reachable.restart_eq (h : Reachable setup s) {ps : List Int}
    (hps : ∀ p, p ∈ ps ↔ s.breakpoints.contains p = true) :
    s.restart = (begin s.reach s.historyLimit s.initial {}).after (ps.map .add) := by
  have hbreakpoints := h.ascending.eq_foldl_insert hps
  rw [after_add, Session.restart]
  exact congrArg (begin s.reach s.historyLimit s.initial) hbreakpoints

end Debugger.Session

namespace Api

theorem Field.le_of_integerFrom {least n : Int} {x : Json} (h : Field.integerFrom least x = .ok n) :
    least ≤ n := by
  simp only [Field.integerFrom, bind, Except.bind, pure, Except.pure] at h
  split at h
  · cases h
  · split at h
    · next hle =>
      obtain rfl := Except.ok.inj h
      exact hle
    · cases h

/-- A session that a request asks for remembers at least one state. -/
theorem Body.setup_historyLimit {room : Room} {ms : Json.Members} {code : Json.Literal} {setup : Debugger.Setup}
    (h : Body.setup room ms = .ok (code, setup)) : ∃ limit, setup.historyLimit = .ok limit ∧ 1 ≤ limit := by
  unfold Body.setup at h
  dsimp only at h
  split at h
  · next hlimit _ _ _ =>
    obtain ⟨-, rfl⟩ := Prod.mk.inj (Except.ok.inj h)
    refine ⟨_, rfl, ?_⟩
    unfold Field.optional at hlimit
    split at hlimit
    · obtain rfl := Except.ok.inj hlimit
      decide
    · exact Field.le_of_integerFrom hlimit
  · cases h

theorem Request.setup_historyLimit {room : Room} {files : Bool} {request : Request} {code : Json.Literal}
    {setup : Debugger.Setup} (h : request.setup? room files = some (code, setup)) :
    ∃ limit, setup.historyLimit = .ok limit ∧ 1 ≤ limit := by
  unfold Request.setup? at h
  split at h
  · split at h
    · next hbody =>
      obtain rfl := Option.some.inj h
      cases hms : Body.members request.body with
      | error refusal =>
        rw [hms] at hbody
        cases hbody
      | ok ms =>
        rw [hms] at hbody
        exact Body.setup_historyLimit hbody
    · cases h
  · cases h

/-- A response that shows a value can have any status. -/
theorem Response.ofValue_ok {status : Nat} {value : Json} {response : Response}
    (h : Response.ofValue status value = .ok response) (status' : Nat) :
    response = ⟨status, .json value⟩ ∧ Response.ofValue status' value = .ok ⟨status', .json value⟩ := by
  unfold Response.ofValue at h ⊢
  cases hgap : value.gap? with
  | some gap =>
    rw [hgap] at h
    cases h
  | none =>
    rw [hgap] at h
    exact ⟨(Except.ok.inj h).symm, rfl⟩

def Request.deletes (files : Bool) (id : String) (request : Request) : Bool :=
  match request.task? files with
  | some (j, .ok .delete) => j == id
  | _ => false

/-- A session at its start, without breakpoints and with room for a state to remember. -/
def Record.New (r : Record) : Prop :=
  ∃ reach limit m, 1 ≤ limit ∧ r.session = .begin reach limit m {}

namespace Record.New
variable {q r : Record}

theorem breakpoints (h : r.New) : r.session.breakpoints = {} := by
  obtain ⟨reach, limit, m, -, hr⟩ := h
  rw [hr]
  rfl

theorem history_size (h : r.New) : r.session.history.size = 1 := by
  obtain ⟨reach, limit, m, hlimit, hr⟩ := h
  have hroom : ¬ limit < 1 := Int.not_lt.mpr hlimit
  simp [hr, Debugger.Session.begin, Debugger.Session.remember, hroom]

/-- A new session is what it becomes by a reset, whatever it has been through. -/
theorem reset_eq (h : q.New) (hkeeps : q.Keeps r) :
    { r with session := r.session.clearBreakpoints.restart } = q := by
  obtain ⟨reach, limit, m, -, hq⟩ := h
  obtain ⟨id, code, session, totalSteps, capped⟩ := q
  obtain ⟨id', code', session', totalSteps', capped'⟩ := r
  obtain ⟨rfl, rfl, rfl, rfl, hinitial, hreach, hlimit⟩ := hkeeps
  obtain rfl := hq
  have hrestart : session'.clearBreakpoints.restart = .begin reach limit m {} := by
    show Debugger.Session.begin session'.reach session'.historyLimit session'.initial {} = _
    rw [hinitial, hreach, hlimit]
    rfl
  rw [hrestart]

end Record.New

namespace Service
variable {fresh : Nat → String} {room : Room} {files : Option Files} {id : String} {v : Service} {request : Request}
  {fuel k : Nat} {r : Record} {code : Json.Literal} {setup : Debugger.Setup}

theorem creation_new (h : (creation id code setup).1 = some r)
    (hroom : ∃ limit, setup.historyLimit = .ok limit ∧ 1 ≤ limit) : r.New := by
  obtain ⟨-, hbegin⟩ := creation_begin h
  obtain ⟨-, m, reach, limit, -, -, hlimit, hsession⟩ := Debugger.Session.start_ok hbegin
  obtain ⟨limit', hlimit', hroom⟩ := hroom
  obtain rfl := Except.ok.inj (hlimit'.symm.trans hlimit)
  exact ⟨reach, limit', m, hroom, hsession⟩

/-- A session that is answered when it is created is shown as it is then. -/
theorem creation_answer {response : Response} (h : (creation id code setup).1 = some r)
    (hok : (creation id code setup).2 = .ok response) :
    Response.ofValue 201 (Payload.ofRecord r) = .ok response := by
  unfold creation at h hok
  cases hs : Debugger.Session.start setup with
  | error f =>
    rw [hs] at h
    cases h
  | ok session =>
    rw [hs] at h hok
    dsimp only at h hok
    cases hdry : DryRun.of session.initial.program setup (.ok DryRun.defaultCap) with
    | error f =>
      rw [hdry] at hok
      cases hok
    | ok dry =>
      rw [hdry] at h hok
      obtain rfl := Option.some.inj h
      exact hok

/-- A session that has been created is new, its name has been drawn, and it is shown if anything is. -/
theorem Sound.exists_created (h : v.Sound fresh room files) (habsent : v.find id = none)
    (hcreates : (v.answer fuel request).1.find id ≠ none) :
    ∃ k q, id = fresh k ∧ k < (v.answer fuel request).1.store.created ∧ q.New ∧
      (v.answer fuel request).1.find id = some q ∧
        ∀ response, (v.answer fuel request).2 = .ok response →
          Response.ofValue 201 (Payload.ofRecord q) = .ok response := by
  obtain ⟨hid, code, setup, hs, hsome⟩ := h.exists_creation habsent hcreates
  obtain ⟨q, hq⟩ := Option.isSome_iff_exists.mp hsome
  have hperforms := h.creates hid hs fuel
  rw [h.nextId] at hid
  refine ⟨v.store.created, q, hid, h.lt_created hs (hid ▸ hsome) fuel, ?_, hperforms.here.trans hq, ?_⟩
  · exact creation_new hq (Request.setup_historyLimit hs)
  · intro response hok
    exact creation_answer hq (hperforms.answer.symm.trans hok)

/-- A session stays until it is deleted, and it is still the one that was created. -/
theorem Sound.find_keeps (h : v.Sound fresh room files) (hfind : v.find id = some r)
    (hdelete : request.deletes files.isSome id = false) (fuel : Nat) :
    ∃ r', (v.answer fuel request).1.find id = some r' ∧ r.Keeps r' := by
  cases hn : request.names files.isSome id with
  | false =>
    have hdrawn : id ≠ v.store.nextId := by
      rintro rfl
      cases hfind.symm.trans h.tidy.find_nextId
    exact ⟨r, (h.find_answer hn fuel fun hid => absurd hid hdrawn).trans hfind, .refl r⟩
  | true =>
    obtain ⟨t, ht⟩ := Request.names_iff.mp hn
    cases t with
    | error refusal =>
      rw [h.answer_of_refused ht]
      exact ⟨r, hfind, .refl r⟩
    | ok t =>
      have hhere := (h.performs ht fuel).here
      rw [hfind] at hhere
      obtain ⟨r', hr', hkeeps⟩ | rfl := t.perform_keeps fuel r
      · exact ⟨r', hhere.trans hr', hkeeps⟩
      · rw [Request.deletes, ht] at hdelete
        simp at hdelete

theorem Sound.find_after_keeps (h : v.Sound fresh room files) (hfind : v.find id = some r) (fuel : Nat)
    {requests : List Request} (hdelete : ∀ request ∈ requests, request.deletes files.isSome id = false) :
    ∃ r', (v.after fuel requests).find id = some r' ∧ r.Keeps r' := by
  induction requests generalizing v r with
  | nil => exact ⟨r, hfind, .refl r⟩
  | cons request rest ih =>
    obtain ⟨hrequest, hrest⟩ := List.forall_mem_cons.mp hdelete
    obtain ⟨r₁, hr₁, hkeeps₁⟩ := h.find_keeps hfind hrequest fuel
    obtain ⟨r₂, hr₂, hkeeps₂⟩ := ih (h.answer fuel request) hr₁ hrest
    exact ⟨r₂, hr₂, hkeeps₁.trans hkeeps₂⟩

/-- How a session that was created in `v'` stands behind a reset in `u`. It is shown as it was when it was
created, and the answers to further requests for it are those that they have right behind its creation. -/
structure Renewed (fuel : Nat) (files : Option Files) (id : String) (created : Except Stop Response)
    (v' u : Service) (reset : Request) : Prop where
  shown : ∀ response, created = .ok response →
    response.status = 201 ∧ (u.answer fuel reset).2 = .ok { response with status := 200 } ∧
      ∃ r, response.content = .json (Payload.ofRecord r) ∧ r.session.breakpoints = {} ∧
        r.session.history.size = 1
  later : ∀ requests,
    (((u.answer fuel reset).1.answers fuel requests).filter fun c => c.1.names files.isSome id) =
      v'.answers fuel (requests.filter (Request.names files.isSome id))

/-- A reset of a session that has not been deleted since its creation renews it. -/
theorem renewed (hfresh : Function.Injective fresh) {before behind : List Request} {create reset : Request}
    (hv : (vacant fresh room files 0).after fuel before = v) (habsent : v.find id = none)
    (hcreates : (v.answer fuel create).1.find id ≠ none)
    (hdelete : ∀ request ∈ behind, request.deletes files.isSome id = false)
    (hreset : reset.task? files.isSome = some (id, .ok .reset)) :
    Renewed fuel files id (v.answer fuel create).2 (v.answer fuel create).1
      ((v.answer fuel create).1.after fuel behind) reset := by
  have hsound : v.Sound fresh room files := hv ▸ (sound_vacant hfresh room files 0).after fuel before
  obtain ⟨k, q, hid, hk, hnew, hfind, hcreated⟩ := hsound.exists_created habsent hcreates
  have hv' := hsound.answer fuel create
  have hu := hv'.after fuel behind
  -- what comes of the session up to the reset, and by it
  obtain ⟨r, hr, hkeeps⟩ := hv'.find_after_keeps hfind fuel hdelete
  have hperforms := hu.performs hreset fuel
  rw [hr] at hperforms
  have hrenewed := hnew.reset_eq hkeeps
  constructor
  · intro response hok
    obtain ⟨rfl, hshown⟩ := Response.ofValue_ok (hcreated response hok) 200
    refine ⟨rfl, ?_, q, rfl, hnew.breakpoints, hnew.history_size⟩
    rw [← hshown, hperforms.answer, ← hrenewed]
    rfl
  · intro requests
    have hcreated_le := hv'.created_le_after fuel behind
    have hcreated_le' := created_le_answer hu.tidy fuel reset
    subst hid
    have hsame : SameFor fresh room files (fresh k) (((v.answer fuel create).1.after fuel behind).answer fuel reset).1
        (v.answer fuel create).1 := by
      refine ⟨hu.answer fuel reset, hv', ?_⟩
      rw [hperforms.here, hfind, ← hrenewed]
      rfl
    exact (hsame.answers requests (Or.inl (by omega))).1

/-- Restarts are fresh starts. A session that restarts is a new session of the same setup in which its
breakpoints are set; and a session of a service that is reset is the one that was created. -/
theorem restart_anew :
    (∀ setup s, Debugger.Session.Reachable setup s → ∃ s₀, Debugger.Session.start setup = .ok s₀ ∧
        ∀ ps : List Int, (∀ p, p ∈ ps ↔ s.breakpoints.contains p = true) → s.restart = s₀.after (ps.map .add)) ∧
      ∀ fresh : Nat → String, Function.Injective fresh → ∀ room fuel files before create id v,
        (vacant fresh room files 0).after fuel before = v → v.find id = none →
          (v.answer fuel create).1.find id ≠ none →
            ∀ behind, (∀ request ∈ behind, request.deletes files.isSome id = false) →
              ∀ reset, reset.task? files.isSome = some (id, .ok .reset) →
                Renewed fuel files id (v.answer fuel create).2 (v.answer fuel create).1
                  ((v.answer fuel create).1.after fuel behind) reset := by
  constructor
  · intro setup s hs
    exact ⟨_, hs.start_eq, fun ps hps => hs.restart_eq hps⟩
  · intro fresh hfresh room fuel files before create id v hv habsent hcreates behind hdelete reset hreset
    exact renewed hfresh hv habsent hcreates hdelete hreset

def reset (id : String) : Request :=
  ⟨"POST", s!"/api/session/{id}/reset", []⟩

section Example
open Debugger (Session)

/-- A session that has failed at its limit restarts, and one that has come to its end is reset. -/
theorem restart_anew_at_the_end :
    let begun := Session.begin 1 2 Session.twoOfThreeMachine {}
    let failed := begun.after [.add 7, .step 1, .run 9 none]
    let v := vacant numbered .all none 0
    let v' := (v.answer 1 increment).1
    (failed.finished = true ∧ failed.restart = begun.after [.add 7]) ∧
      Renewed 1 none "S0" (v.answer 1 increment).2 v' (v'.after 1 [step "S0" 3]) (reset "S0") := by
  intro begun failed v v'
  obtain ⟨hrestart, hreset⟩ := restart_anew
  constructor
  · have hreachable : Session.Reachable Session.twoOfThree failed :=
      .call (.call (.call (.start rfl) (.add 7)) (.step 1)) (.run 9 none)
    obtain ⟨s₀, hs₀, hequal⟩ := hrestart _ _ hreachable
    have hstart : Session.start Session.twoOfThree = .ok begun := rfl
    obtain rfl := Except.ok.inj (hstart.symm.trans hs₀)
    have hfinished : failed.finished = true := by decide +kernel
    have hbreakpoints : failed.breakpoints = ⟨[7]⟩ := by decide +kernel
    have hpositions : ∀ p, p ∈ [7] ↔ failed.breakpoints.contains p = true := by
      intro p
      simp [hbreakpoints, Breakpoints.contains]
    exact ⟨hfinished, hequal [7] hpositions⟩
  · have habsent : (v.find "S0").isNone = true := by decide +kernel
    have hcreates : (v'.find "S0").isSome = true := by decide +kernel
    have hdelete : ∀ request ∈ [step "S0" 3], request.deletes false "S0" = false := by decide +kernel
    rw [Option.isNone_iff_eq_none] at habsent
    rw [Option.isSome_iff_ne_none] at hcreates
    exact hreset numbered numbered_injective .all 1 none [] increment "S0" v rfl habsent hcreates _ hdelete
      (reset "S0") rfl

end Example

end Service
end Api
end Brainfuck
