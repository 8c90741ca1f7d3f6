import Brainfuck.Proofs.Ignoring

/-! Usage. Whatever is asked of a service, the session of a record is one in use of the setup that created it, and
what every task keeps of a record is kept of it. -/
namespace Brainfuck.Api

/-- What is typed in for a new session is a row of integers. -/
theorem Body.setup_input {room : Room} {ms : Json.Members} {code : Json.Literal} {setup : Debugger.Setup}
    (h : Body.setup room ms = .ok (code, setup)) : ∀ v ∈ setup.input, ∃ n, v = .integer n := by
  unfold Body.setup at h
  dsimp only at h
  split at h
  · obtain ⟨-, rfl⟩ := Prod.mk.inj (Except.ok.inj h)
    intro v hv
    obtain ⟨p, -, rfl⟩ := List.mem_map.mp hv
    exact ⟨_, rfl⟩
  · cases h

theorem Request.setup_input {room : Room} {files : Bool} {request : Request} {code : Json.Literal}
    {setup : Debugger.Setup} (h : request.setup? room files = some (code, setup)) : ∀ v ∈ setup.input, ∃ n, v = .integer n := by
  unfold Request.setup? at h
  split at h
  · split at h
    · next hbody =>
      obtain rfl := Option.some.inj h
      cases hms : Body.members request.body with
      | error refusal =>
        rw [hms] at hbody
        cases hbody
      | ok ms =>
        rw [hms] at hbody
        exact Body.setup_input hbody
    · cases h
  · cases h

section Task
open Debugger (Session Setup)
variable {setup : Setup} {fuel : Nat} {r r' : Record}

theorem Service.runSession_inUse {s : Session} (h : Session.InUse setup s) (fuel : Nat) (limit : Option Int)
    (ignore : Bool) : Session.InUse setup (runSession fuel s limit ignore).1 := by
  unfold runSession
  cases ignore with
  | false => exact h.call (.run fuel limit)
  | true =>
    have hrun := ((h.replaced {}).noted).call (.run fuel limit)
    exact (hrun.replaced s.breakpoints).noted

/-- A breakpoint is taken away as by a call, or it is said that there is none. -/
theorem Task.perform_remove (fuel : Nat) (r : Record) (p : Int) :
    perform fuel r (.remove p) = shown { r with session := (r.session.call (.remove p)).1 } ∨
      ∃ detail, perform fuel r (.remove p) = (some r, .ok (.explained 404 detail)) := by
  simp only [perform, Session.call]
  rcases r.session.removeBreakpoint p with ⟨session, removed⟩
  cases removed with
  | true => exact Or.inl rfl
  | false => exact Or.inr ⟨_, rfl⟩

/-- A task leaves a session in use. -/
theorem Task.perform_inUse (h : Session.InUse setup r.session) {t : Task} (hr : (t.perform fuel r).1 = some r') :
    Session.InUse setup r'.session := by
  cases t with
  | view =>
    obtain rfl := Option.some.inj hr
    exact h
  | delete => cases hr
  | reset =>
    obtain rfl := Option.some.inj hr
    exact (h.replaced {}).restart
  | step count =>
    obtain rfl := Option.some.inj hr
    exact h.call (.step count)
  | run limit ignore =>
    obtain rfl := Option.some.inj hr
    exact Service.runSession_inUse h fuel limit ignore
  | add p =>
    obtain rfl := Option.some.inj hr
    exact h.call (.add p)
  | remove p =>
    obtain hremove | ⟨detail, hremove⟩ := perform_remove fuel r p
    · rw [hremove] at hr
      obtain rfl := Option.some.inj hr
      exact h.call (.remove p)
    · rw [hremove] at hr
      obtain rfl := Option.some.inj hr
      exact h

structure Record.Uses (setup : Setup) (q r : Record) : Prop where
  keeps : q.Keeps r
  inUse : Session.InUse setup r.session

theorem Record.Uses.perform {q : Record} (h : q.Uses setup r) {t : Task} (hr : (t.perform fuel r).1 = some r') :
    q.Uses setup r' := by
  refine ⟨?_, t.perform_inUse h.inUse hr⟩
  obtain ⟨r'', hr'', hkeeps⟩ | rfl := t.perform_keeps fuel r
  · obtain rfl := Option.some.inj (hr''.symm.trans hr)
    exact h.keeps.trans hkeeps
  · cases hr

end Task

namespace Service
variable {fresh : Nat → String} {room : Room} {files : Option Files} {id : String} {v : Service} {k fuel : Nat}
  {P : Record → Prop}

/-- What the task that is asked keeps of a record a request keeps of it. -/
theorem Sound.find_answer_asked (h : v.Sound fresh room files) (hk : k < v.store.created) {request : Request}
    (hP : ∀ r r' t, request.task? files.isSome = some (fresh k, .ok t) → P r →
      (Task.perform fuel r t).1 = some r' → P r')
    (hfind : ∀ r, v.find (fresh k) = some r → P r) :
    ∀ r, (v.answer fuel request).1.find (fresh k) = some r → P r := by
  intro r hr
  obtain ⟨id, t, ht, hp⟩ | ⟨code, setup, -, hp⟩ | hsame := answer_cases h.tidy fuel request
  · by_cases hid : fresh k = id
    · subst hid
      rw [h.files] at ht
      rw [hp.here] at hr
      cases hq : v.find (fresh k) with
      | none =>
        rw [hq] at hr
        cases hr
      | some q =>
        rw [hq] at hr
        exact hP q r t ht (hfind q hq) hr
    · exact hfind r ((hp.elsewhere _ hid).symm.trans hr)
  · -- the next name has not been drawn yet
    have hid : fresh k ≠ v.store.nextId := by
      intro hname
      have hequal : k = v.store.created := h.injective (hname.trans h.nextId)
      omega
    exact hfind r ((hp.elsewhere _ hid).symm.trans hr)
  · rw [hsame] at hr
    exact hfind r hr

/-- What the tasks that are asked keep of a record the requests keep of it. -/
theorem Sound.find_after_asked (h : v.Sound fresh room files) (hk : k < v.store.created) {requests : List Request}
    (hP : ∀ request ∈ requests, ∀ r r' t, request.task? files.isSome = some (fresh k, .ok t) → P r →
      (Task.perform fuel r t).1 = some r' → P r')
    (hfind : ∀ r, v.find (fresh k) = some r → P r) :
    ∀ r, (v.after fuel requests).find (fresh k) = some r → P r := by
  induction requests generalizing v with
  | nil => exact hfind
  | cons request rest ih =>
    obtain ⟨hrequest, hrest⟩ := List.forall_mem_cons.mp hP
    have hcreated := created_le_answer h.tidy fuel request
    have hlt : k < (v.answer fuel request).1.store.created := by omega
    exact ih (h.answer fuel request) hlt hrest (h.find_answer_asked hk hrequest hfind)

/-- What every task keeps of a record the requests keep of it. -/
theorem Sound.find_after_of (hP : ∀ r r' t, P r → (Task.perform fuel r t).1 = some r' → P r')
    (h : v.Sound fresh room files) (hk : k < v.store.created) (hfind : ∀ r, v.find (fresh k) = some r → P r)
    (requests : List Request) : ∀ r, (v.after fuel requests).find (fresh k) = some r → P r :=
  h.find_after_asked hk (fun _ _ r r' t _ => hP r r' t) hfind

end Service

end Brainfuck.Api
