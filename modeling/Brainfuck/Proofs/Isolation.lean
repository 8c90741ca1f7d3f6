import Brainfuck.Proofs.Service

/-! Isolation. What is answered to the requests for one session depends on no other requests. -/
namespace Brainfuck.Api.Service

abbrev after (fuel : Nat) (v : Service) (requests : List Request) : Service :=
  Calls.after (answer fuel) v requests

abbrev answers (fuel : Nat) (v : Service) (requests : List Request) :
    List (Request × Except Stop Response) :=
  Calls.answers (answer fuel) v requests

/-- A service without sessions, which draws names behind the first `k`. -/
def vacant (fresh : Nat → String) (room : Room) (files : Option Files) (k : Nat) : Service :=
  { store := { created := k, fresh }, files, room }

/-- A service that has been in order from its start on. -/
structure Sound (fresh : Nat → String) (room : Room) (files : Option Files) (v : Service) : Prop where
  tidy : v.store.Tidy
  fresh : v.store.fresh = fresh
  room : v.room = room
  files : v.files = files

/-- Two services that are in order and have the same session under a name. -/
structure SameFor (fresh : Nat → String) (room : Room) (files : Option Files) (id : String) (v w : Service) :
    Prop where
  left : v.Sound fresh room files
  right : w.Sound fresh room files
  find : v.find id = w.find id

variable {fresh : Nat → String} {room : Room} {files : Option Files} {id : String} {v w : Service} {request : Request}
  {fuel k : Nat}

theorem sound_vacant (hfresh : Function.Injective fresh) (room : Room) (files : Option Files) (k : Nat) :
    (vacant fresh room files k).Sound fresh room files :=
  ⟨⟨hfresh, nofun, nofun⟩, rfl, rfl, rfl⟩

theorem Sound.nextId (h : v.Sound fresh room files) : v.store.nextId = fresh v.store.created := by
  rw [Store.nextId, h.fresh]

theorem Sound.injective (h : v.Sound fresh room files) : Function.Injective fresh := by
  rw [← h.fresh]
  exact h.tidy.unrepeated

theorem Sound.answer (h : v.Sound fresh room files) (fuel : Nat) (request : Request) :
    (v.answer fuel request).1.Sound fresh room files :=
  ⟨answer_tidy h.tidy fuel request, (answer_fresh h.tidy fuel request).trans h.fresh,
    (answer_room h.tidy fuel request).trans h.room, (answer_files h.tidy fuel request).trans h.files⟩

theorem Sound.after (h : v.Sound fresh room files) (fuel : Nat) (requests : List Request) :
    (v.after fuel requests).Sound fresh room files :=
  Calls.after_induction (fun _ request h => h.answer fuel request) h requests

theorem Sound.performs {t : Task} (h : v.Sound fresh room files)
    (ht : request.task? files.isSome = some (id, .ok t)) (fuel : Nat) :
    Performs v id 0 (t.outcome fuel id (v.find id)) (v.answer fuel request) :=
  performs_answer h.tidy (by rw [h.files, ht])

/-- A request that is refused is refused whatever sessions there are, and nothing comes of it. -/
theorem Sound.answer_of_refused {refusal : Refusal} (h : v.Sound fresh room files)
    (ht : request.task? files.isSome = some (id, .error refusal)) (fuel : Nat) :
    v.answer fuel request = (v, Response.refused refusal) :=
  Service.answer_of_refused (by rw [h.files, ht])

theorem Sound.creates {code : Json.Literal} {setup : Debugger.Setup} (h : v.Sound fresh room files)
    (hid : id = v.store.nextId) (hs : request.setup? room files.isSome = some (code, setup)) (fuel : Nat) :
    Performs v id (drawnFor (creation id code setup).1) (creation id code setup) (v.answer fuel request) := by
  have hanswer : v.answer fuel request = v.create code setup := answer_of_setup (by rw [h.room, h.files, hs])
  rw [hanswer, hid]
  exact performs_create h.tidy code setup

theorem Sound.created_le_after (h : v.Sound fresh room files) (fuel : Nat) (requests : List Request) :
    v.store.created ≤ (v.after fuel requests).store.created := by
  have hcall : ∀ (w : Service) (request : Request),
      w.Sound fresh room files ∧ v.store.created ≤ w.store.created →
      (w.answer fuel request).1.Sound fresh room files ∧
        v.store.created ≤ (w.answer fuel request).1.store.created := by
    rintro w request ⟨hw, hle⟩
    exact ⟨hw.answer fuel request, Nat.le_trans hle (created_le_answer hw.tidy fuel request)⟩
  exact (Calls.after_induction hcall ⟨h, Nat.le_refl _⟩ requests).2

/-- A request for one session has the same answer wherever this session is the same. -/
theorem SameFor.answer (h : SameFor fresh room files id v w) (hn : request.names files.isSome id = true) (fuel : Nat) :
    (v.answer fuel request).2 = (w.answer fuel request).2 ∧
      SameFor fresh room files id (v.answer fuel request).1 (w.answer fuel request).1 := by
  obtain ⟨t, ht⟩ := Request.names_iff.mp hn
  cases t with
  | error refusal =>
    rw [h.left.answer_of_refused ht, h.right.answer_of_refused ht]
    exact ⟨rfl, h⟩
  | ok t =>
    have hleft := h.left.performs ht fuel
    have hright := h.right.performs ht fuel
    rw [h.find] at hleft
    refine ⟨hleft.answer.trans hright.answer.symm, ?_⟩
    exact ⟨h.left.answer fuel request, h.right.answer fuel request, hleft.here.trans hright.here.symm⟩

/-- No other request touches the session, unless it creates it. -/
theorem Sound.find_answer (h : v.Sound fresh room files) (hn : request.names files.isSome id = false) (fuel : Nat)
    (hdrawn : id = v.store.nextId → (v.answer fuel request).1.store.created = v.store.created) :
    (v.answer fuel request).1.find id = v.find id := by
  obtain ⟨j, t, ht, hp⟩ | ⟨code, setup, -, hp⟩ | hsame := answer_cases h.tidy fuel request
  · refine hp.elsewhere id ?_
    rintro rfl
    rw [h.files] at ht
    rw [Request.names_iff.mpr ⟨_, ht⟩] at hn
    cases hn
  · by_cases hid : id = v.store.nextId
    · -- no name has been drawn, so that no session has started
      have hcreated := hp.created
      rw [hdrawn hid] at hcreated
      have hnone : (creation v.store.nextId code setup).1 = none := by
        cases hstarted : (creation v.store.nextId code setup).1 with
        | none => rfl
        | some r =>
          rw [hstarted] at hcreated
          simp [drawnFor] at hcreated
      rw [hid, hp.here, hnone]
      exact h.tidy.find_nextId.symm
    · exact hp.elsewhere id hid
  · rw [hsame]

/-- The requests for one session have the answers that they have without all others. -/
theorem SameFor.answers (h : SameFor fresh room files (fresh k) v w) (requests : List Request)
    (hk : k < v.store.created ∨ (v.after fuel requests).store.created ≤ k) :
    ((v.answers fuel requests).filter fun c => c.1.names files.isSome (fresh k)) =
        w.answers fuel (requests.filter (Request.names files.isSome (fresh k))) ∧
      SameFor fresh room files (fresh k) (v.after fuel requests)
        (w.after fuel (requests.filter (Request.names files.isSome (fresh k)))) := by
  induction requests generalizing v w with
  | nil => exact ⟨rfl, h⟩
  | cons request rest ih =>
    have hmono := created_le_answer h.left.tidy fuel request
    have hbehind : k < v.store.created ∨
        ((v.answer fuel request).1.after fuel rest).store.created ≤ k := hk
    have hrest : k < (v.answer fuel request).1.store.created ∨
        ((v.answer fuel request).1.after fuel rest).store.created ≤ k := by omega
    cases hn : request.names files.isSome (fresh k) with
    | true =>
      obtain ⟨hanswer, hsame⟩ := h.answer hn fuel
      obtain ⟨hanswers, hafter⟩ := ih hsame hrest
      simp only [answers, Calls.answers, List.filter_cons, hn, if_true] at hanswers ⊢
      rw [hanswers, hanswer]
      exact ⟨rfl, hafter⟩
    | false =>
      have hdrawn : fresh k = v.store.nextId →
          (v.answer fuel request).1.store.created = v.store.created := by
        intro hname
        have hequal : k = v.store.created := h.left.injective (hname.trans h.left.nextId)
        have hle := (h.left.answer fuel request).created_le_after fuel rest
        omega
      have hsame : SameFor fresh room files (fresh k) (v.answer fuel request).1 w :=
        ⟨h.left.answer fuel request, h.right, (h.left.find_answer hn fuel hdrawn).trans h.find⟩
      obtain ⟨hanswers, hafter⟩ := ih hsame hrest
      simp only [answers, Calls.answers, List.filter_cons, hn] at hanswers ⊢
      exact ⟨hanswers, hafter⟩

/-- A request that names a session draws no name. -/
theorem Sound.created_answer (h : v.Sound fresh room files) (hn : request.names files.isSome id = true) (fuel : Nat) :
    (v.answer fuel request).1.store.created = v.store.created := by
  obtain ⟨t, ht⟩ := Request.names_iff.mp hn
  cases t with
  | error refusal => rw [h.answer_of_refused ht]
  | ok t => exact (h.performs ht fuel).created

theorem Sound.created_after (h : v.Sound fresh room files) (fuel : Nat) (id : String) (requests : List Request) :
    (v.after fuel (requests.filter (Request.names files.isSome id))).store.created = v.store.created := by
  induction requests generalizing v with
  | nil => rfl
  | cons request rest ih =>
    cases hn : request.names files.isSome id with
    | false =>
      rw [List.filter_cons_of_neg (by simp [hn])]
      exact ih h
    | true =>
      rw [List.filter_cons_of_pos hn]
      exact (ih (h.answer fuel request)).trans (h.created_answer hn fuel)

/-- A session that appears has been created under the next name. -/
theorem Sound.exists_creation (h : v.Sound fresh room files) (habsent : v.find id = none)
    (hcreates : (v.answer fuel request).1.find id ≠ none) :
    id = v.store.nextId ∧ ∃ code setup, request.setup? room files.isSome = some (code, setup) ∧
      (creation id code setup).1.isSome = true := by
  obtain ⟨j, t, ht, hp⟩ | ⟨code, setup, hs, hp⟩ | hsame := answer_cases h.tidy fuel request
  · refine absurd ?_ hcreates
    by_cases hid : id = j
    · subst hid
      rw [hp.here, habsent]
      rfl
    · rw [hp.elsewhere id hid, habsent]
  · by_cases hid : id = v.store.nextId
    · subst hid
      rw [hp.here] at hcreates
      rw [h.room, h.files] at hs
      exact ⟨rfl, code, setup, hs, Option.isSome_iff_ne_none.mpr hcreates⟩
    · exact absurd ((hp.elsewhere id hid).trans habsent) hcreates
  · rw [hsame] at hcreates
    exact absurd habsent hcreates

/-- A new session is the same in all services that draw the same name for it. -/
theorem SameFor.create (h : SameFor fresh room files id v w) (hid : id = v.store.nextId) (hid' : id = w.store.nextId)
    {code : Json.Literal} {setup : Debugger.Setup}
    (hs : request.setup? room files.isSome = some (code, setup)) (fuel : Nat) :
    (v.answer fuel request).2 = (w.answer fuel request).2 ∧
      SameFor fresh room files id (v.answer fuel request).1 (w.answer fuel request).1 := by
  have hleft := h.left.creates hid hs fuel
  have hright := h.right.creates hid' hs fuel
  refine ⟨hleft.answer.trans hright.answer.symm, ?_⟩
  exact ⟨h.left.answer fuel request, h.right.answer fuel request, hleft.here.trans hright.here.symm⟩

/-- A session that is gone does not come back. -/
theorem Sound.find_after_none (h : v.Sound fresh room files) (hk : k < v.store.created)
    (hnone : v.find (fresh k) = none) (fuel : Nat) (requests : List Request) :
    (v.after fuel requests).find (fresh k) = none := by
  have hcall : ∀ (w : Service) (request : Request),
      w.Sound fresh room files ∧ k < w.store.created ∧ w.find (fresh k) = none →
        (w.answer fuel request).1.Sound fresh room files ∧ k < (w.answer fuel request).1.store.created ∧
          (w.answer fuel request).1.find (fresh k) = none := by
    rintro w request ⟨hw, hlt, hfind⟩
    have hcreated := created_le_answer hw.tidy fuel request
    refine ⟨hw.answer fuel request, Nat.lt_of_lt_of_le hlt hcreated, ?_⟩
    by_contra hsome
    obtain ⟨hname, -⟩ := hw.exists_creation hfind hsome
    have hequal : k = w.store.created := hw.injective (hname.trans hw.nextId)
    omega
  exact (Calls.after_induction hcall ⟨h, hk, hnone⟩ requests).2.2

/-- A session that is not there is not found, whatever is asked of it. -/
theorem Sound.answer_missing {t : Task} (h : v.Sound fresh room files) (hnone : v.find id = none)
    (ht : request.task? files.isSome = some (id, .ok t)) (fuel : Nat) :
    ∃ response, (v.answer fuel request).2 = .ok response ∧ response.status = 404 := by
  have hp := h.performs ht fuel
  rw [hnone] at hp
  exact ⟨t.missing id, hp.answer, t.missing_status id⟩

/-- How a session that is created in a service `v`, which becomes `v'`, stands by itself. The answers to its own
requests are those without all others, if the same name is drawn for it. Once it has been deleted it is not
found again, but a request that is refused is refused all the same. And no request for it changes what is shown
of others. -/
structure Isolated (fuel : Nat) (fresh : Nat → String) (room : Room) (files : Option Files) (id : String)
    (before : List Request) (create : Request) (behind : List Request) (v v' : Service) : Prop where
  alone : (((vacant fresh room files 0).answers fuel before).filter fun c => c.1.names files.isSome id) ++
      (create, (v.answer fuel create).2) ::
        ((v'.answers fuel behind).filter fun c => c.1.names files.isSome id) =
    (vacant fresh room files v.store.created).answers fuel
      (before.filter (Request.names files.isSome id) ++
        create :: behind.filter (Request.names files.isSome id))
  deleted : ∀ delete, delete.task? files.isSome = some (id, .ok .delete) → ∀ later request,
    (∀ t, request.task? files.isSome = some (id, .ok t) → ∃ response,
        ((v'.after fuel (behind ++ delete :: later)).answer fuel request).2 = .ok response ∧
          response.status = 404) ∧
      ∀ refusal, request.task? files.isSome = some (id, .error refusal) →
        ((v'.after fuel (behind ++ delete :: later)).answer fuel request).2 = Response.refused refusal
  others : ∀ requests request view other, request.names files.isSome id = true → other ≠ id →
    view.task? files.isSome = some (other, .ok .view) →
      ((((vacant fresh room files 0).after fuel requests).answer fuel request).1.answer fuel view).2 =
        (((vacant fresh room files 0).after fuel requests).answer fuel view).2

theorem Sound.deleted {delete : Request} (h : v.Sound fresh room files) (hk : k < v.store.created)
    (hdelete : delete.task? files.isSome = some (fresh k, .ok .delete)) (fuel : Nat)
    (later : List Request) : ((v.answer fuel delete).1.after fuel later).find (fresh k) = none := by
  have hp := h.performs hdelete fuel
  have hnone : (v.answer fuel delete).1.find (fresh k) = none := by
    rw [hp.here]
    cases v.find (fresh k) with
    | none => rfl
    | some r => rfl
  have hcreated : k < (v.answer fuel delete).1.store.created := by
    rw [hp.created]
    exact hk
  exact (h.answer fuel delete).find_after_none hcreated hnone fuel later

/-- What is shown of one session is not changed by a request for another one. -/
theorem Sound.view_answer {view : Request} {other : String} (h : v.Sound fresh room files)
    (hn : request.names files.isSome id = true) (hother : other ≠ id)
    (hview : view.task? files.isSome = some (other, .ok .view)) (fuel : Nat) :
    ((v.answer fuel request).1.answer fuel view).2 = (v.answer fuel view).2 := by
  obtain ⟨t, ht⟩ := Request.names_iff.mp hn
  have hfind : (v.answer fuel request).1.find other = v.find other := by
    cases t with
    | error refusal => rw [h.answer_of_refused ht]
    | ok t => exact (h.performs ht fuel).elsewhere other hother
  have hsame : SameFor fresh room files other (v.answer fuel request).1 v := ⟨h.answer fuel request, h, hfind⟩
  exact (hsame.answer (Request.names_iff.mpr ⟨_, hview⟩) fuel).1

theorem Sound.lt_created {code : Json.Literal} {setup : Debugger.Setup} (h : v.Sound fresh room files)
    (hs : request.setup? room files.isSome = some (code, setup))
    (hsome : (creation (fresh v.store.created) code setup).1.isSome = true) (fuel : Nat) :
    v.store.created < (v.answer fuel request).1.store.created := by
  rw [(h.creates h.nextId.symm hs fuel).created, drawnFor, if_pos hsome]
  exact Nat.lt_succ_self _

/-- The answers to the requests for a session are those without all others, also in front of its creation. -/
theorem answers_alone (hfresh : Function.Injective fresh) {before behind : List Request} {create : Request}
    {code : Json.Literal} {setup : Debugger.Setup}
    (hafter : (vacant fresh room files 0).after fuel before = v) (hid : id = fresh v.store.created)
    (hs : create.setup? room files.isSome = some (code, setup)) (hsome : (creation id code setup).1.isSome = true) :
    (((vacant fresh room files 0).answers fuel before).filter fun c => c.1.names files.isSome id) ++
        (create, (v.answer fuel create).2) ::
          (((v.answer fuel create).1.answers fuel behind).filter fun c => c.1.names files.isSome id) =
      (vacant fresh room files v.store.created).answers fuel
        (before.filter (Request.names files.isSome id) ++
          create :: behind.filter (Request.names files.isSome id)) := by
  subst hid
  have hstart := sound_vacant hfresh room files 0
  have hsolo := sound_vacant hfresh room files v.store.created
  have hv : v.Sound fresh room files := hafter ▸ hstart.after fuel before
  have hvacant : SameFor fresh room files (fresh v.store.created) (vacant fresh room files 0)
      (vacant fresh room files v.store.created) := ⟨hstart, hsolo, rfl⟩
  -- no name that is drawn in front of the creation is that of the session
  have hnames : ((vacant fresh room files 0).after fuel before).store.created ≤ v.store.created :=
    Nat.le_of_eq (congrArg (fun w => w.store.created) hafter)
  obtain ⟨hbefore, hsame⟩ := hvacant.answers before (Or.inr hnames)
  rw [hafter] at hsame
  have hdrawn := hsolo.created_after fuel (fresh v.store.created) before
  have hnext := hsame.right.nextId
  rw [hdrawn] at hnext
  obtain ⟨hcreate, hsame⟩ := hsame.create hv.nextId.symm hnext.symm hs fuel
  obtain ⟨hbehind, -⟩ := hsame.answers behind (Or.inl (hv.lt_created hs hsome fuel))
  rw [hbefore, hbehind, hcreate]
  have happend := Calls.answers_append (answer fuel) (vacant fresh room files v.store.created)
    (before.filter (Request.names files.isSome (fresh v.store.created)))
    (create :: behind.filter (Request.names files.isSome (fresh v.store.created)))
  exact happend.symm

/-- Every session is isolated from all others, whatever is asked before and behind its creation, if no name is
drawn twice. -/
theorem isolation (hfresh : Function.Injective fresh) (fuel : Nat) (room : Room) (files : Option Files)
    {before : List Request} {create : Request} (behind : List Request) {id : String} {v v' : Service}
    (hv : (vacant fresh room files 0).after fuel before = v) (hv' : (v.answer fuel create).1 = v')
    (habsent : v.find id = none) (hcreates : v'.find id ≠ none) :
    Isolated fuel fresh room files id before create behind v v' := by
  have hstart := sound_vacant hfresh room files 0
  have hsound : v.Sound fresh room files := hv ▸ hstart.after fuel before
  subst hv'
  obtain ⟨hid, code, setup, hs, hsome⟩ := hsound.exists_creation habsent hcreates
  rw [hsound.nextId] at hid
  constructor
  · exact answers_alone hfresh hv hid hs hsome
  · intro delete hdelete later request
    have hreached := (hsound.answer fuel create).after fuel behind
    have hlt : v.store.created < ((v.answer fuel create).1.after fuel behind).store.created :=
      Nat.lt_of_lt_of_le (hsound.lt_created hs (hid ▸ hsome) fuel)
        ((hsound.answer fuel create).created_le_after fuel behind)
    subst hid
    have hgone := hreached.deleted hlt hdelete fuel later
    have hlater := (hreached.answer fuel delete).after fuel later
    have happend := Calls.after_append (answer fuel) (v.answer fuel create).1 behind (delete :: later)
    constructor
    · intro t ht
      rw [after, happend]
      exact hlater.answer_missing hgone ht fuel
    · intro refusal ht
      rw [after, happend]
      exact congrArg Prod.snd (hlater.answer_of_refused ht fuel)
  · intro requests request view other hn hother hview
    exact (hstart.after fuel requests).view_answer hn hother hview fuel

def increment : Request :=
  ⟨"POST", "/api/session", "\x7b\"code\":\"+\",\"memory_size\":1\x7d".toUTF8.toList⟩

def step (id : String) (count : Nat) : Request :=
  ⟨"POST", s!"/api/session/{id}/step", s!"\x7b\"count\":{count}\x7d".toUTF8.toList⟩

def delete (id : String) : Request :=
  ⟨"DELETE", s!"/api/session/{id}", []⟩

/-- Two sessions that take turns. -/
theorem isolation_of_two :
    let before := [increment, step "S0" 1]
    let behind := [step "S0" 1, step "S1" 1, delete "S0", step "S1" 1]
    let v := (vacant numbered (.upTo 1) none 0).after 1 before
    v.find "S1" = none ∧ (v.answer 1 increment).1.find "S1" ≠ none ∧
      Isolated 1 numbered (.upTo 1) none "S1" before increment behind v (v.answer 1 increment).1 := by
  intro before behind v
  have habsent : (v.find "S1").isNone = true := by decide +kernel
  have hcreates : ((v.answer 1 increment).1.find "S1").isSome = true := by decide +kernel
  rw [Option.isNone_iff_eq_none] at habsent
  rw [Option.isSome_iff_ne_none] at hcreates
  exact ⟨habsent, hcreates, isolation numbered_injective 1 (.upTo 1) none behind rfl rfl habsent hcreates⟩

/-- Behind its deletion a session is not always said to be missing: what cannot be asked of any session is
refused before the session is looked for. -/
theorem refused_behind_deletion :
    let requests := [increment, delete "S0"]
    let v := vacant numbered .all none 0
    (v.answers 1 requests).map (fun c => (c.2.map Response.status).toOption) = [some 201, some 204] ∧
      (step "S0" 0).names false "S0" = true ∧
        (((v.after 1 requests).answer 1 (step "S0" 0)).2.map Response.status).toOption = some 422 := by
  decide +kernel

end Brainfuck.Api.Service
