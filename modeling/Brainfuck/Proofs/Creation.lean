import Brainfuck.Proofs.Inertness
import Brainfuck.Proofs.Refusals
import Brainfuck.Proofs.Response

/-! Creation of sessions. A session starts exactly if its configuration means something: then it is stored and nothing
else changes, and otherwise it is refused and nothing changes at all. -/
namespace Brainfuck.Api
open Debugger (Setup Session)

/-- What is said about a new session, or left out where a standard value is meant. -/
structure Configuration where
  code : Json.Literal := .whole ""
  input : Json.Literal := .whole ""
  reach : Int := 10
  maxSteps : Option Int := none
  historyLimit : Int := 200
  size : Int := 30000
  minimum : Int := 0
  maximum : Int := 255

namespace Configuration
open Api.Field

def instructions (c : Configuration) : List Instruction :=
  (Program.ofSource c.code.characters).code.toList

/-- The members that say it, each of them of the type that it should have. -/
structure SentIn (c : Configuration) (ms : Json.Members) : Prop where
  code : Given ms "code" (.whole "") .text c.code
  input : Given ms "input" (.whole "") .text c.input
  reach : Given ms "tape_window" 10 .integer c.reach
  maxSteps : Given ms "max_steps" none Payload.ofInteger? c.maxSteps
  historyLimit : Given ms "history_limit" 200 .integer c.historyLimit
  size : Given ms "memory_size" 30000 .integer c.size
  minimum : Given ms "cell_min" 0 .integer c.minimum
  maximum : Given ms "cell_max" 255 .integer c.maximum

structure Meaningful (c : Configuration) : Prop where
  reach : 0 ≤ c.reach
  maxSteps : ∀ n, c.maxSteps = some n → 1 ≤ n
  historyLimit : 1 ≤ c.historyLimit
  size : 1 ≤ c.size
  range : c.minimum ≤ 0 ∧ 0 ≤ c.maximum
  program : c.instructions ≠ [] ∧ Balanced c.instructions

/-- The bounds that are checked of the members one by one. The bounds of the cells are compared only if the upper one
is given. -/
structure InBounds (c : Configuration) (ms : Json.Members) : Prop where
  reach : 0 ≤ c.reach
  maxSteps : ∀ n, c.maxSteps = some n → 1 ≤ n
  historyLimit : 1 ≤ c.historyLimit
  size : 1 ≤ c.size
  uncrossed : Json.member? ms "cell_max" = none ∨ c.minimum ≤ c.maximum

def setup (c : Configuration) (room : Room) : Setup where
  code := c.code.characters
  input := Input.pointNumbers c.input.points
  reach := .ok c.reach
  maxSteps := .ok c.maxSteps
  historyLimit := .ok c.historyLimit
  size := .ok c.size
  minimum := .ok c.minimum
  maximum := .ok c.maximum
  room := room

variable {c : Configuration} {room : Room} {ms : Json.Members}

section Members

theorem optional_integerFrom {field : String} {default n : Int} (h : Given ms field default .integer n) {least : Int}
    (hdefault : least ≤ default) :
    Field.optional ms field default (integerFrom least) = if least ≤ n then .ok n else .error (.tooSmall least) :=
  h.optional_eq (fun hn => by rw [if_pos (hn ▸ hdefault), hn]) rfl

theorem optional_optionalIntegerFrom {field : String} {n : Option Int}
    (h : Given ms field none Payload.ofInteger? n) :
    Field.optional ms field none (optionalIntegerFrom 1) =
      if ∀ k, n = some k → 1 ≤ k then .ok n else .error (.tooSmall 1) := by
  refine h.optional_eq ?_ ?_
  · rintro rfl
    rfl
  · cases n with
    | none => rfl
    | some k =>
      have hread : optionalIntegerFrom 1 (.integer k) = (integerFrom 1 (.integer k)).map some := rfl
      have hfrom : integerFrom 1 (.integer k) = if 1 ≤ k then .ok k else .error (.tooSmall 1) := rfl
      rw [Payload.ofInteger?, Option.map_some, Option.getD_some, hread, hfrom]
      by_cases hk : 1 ≤ k
      · rw [if_pos hk, if_pos (by simpa using hk)]
        rfl
      · rw [if_neg hk, if_neg (by simpa using hk)]
        rfl

variable (hs : c.SentIn ms)
include hs

theorem SentIn.checkBounds_eq :
    Body.checkBounds ms (Field.optional ms "cell_min" 0 integer) (Field.optional ms "cell_max" 255 integer) =
      if Json.member? ms "cell_max" = none ∨ c.minimum ≤ c.maximum then .ok c.maximum
      else .error .crossedBounds := by
  have hminimum : Field.optional ms "cell_min" 0 integer = .ok c.minimum :=
    hs.minimum.optional_eq (fun h => by rw [h]) rfl
  have hmaximum : Field.optional ms "cell_max" 255 integer = .ok c.maximum :=
    hs.maximum.optional_eq (fun h => by rw [h]) rfl
  rw [hminimum, hmaximum]
  cases hmember : Json.member? ms "cell_max" with
  | none => simp [Body.checkBounds, hmember]
  | some x =>
    by_cases hlt : c.maximum < c.minimum
    · simp [Body.checkBounds, hmember, hlt]
    · simp [Body.checkBounds, hmember, hlt, Int.not_lt.mp hlt]

/-- All fields together accept what is within their bounds. -/
theorem SentIn.body_setup_of_inBounds (hb : c.InBounds ms) (room : Room) :
    Body.setup room ms = .ok (c.code, c.setup room) := by
  have hreach := optional_integerFrom hs.reach (by decide : 0 ≤ (10 : Int))
  have hsteps := optional_optionalIntegerFrom hs.maxSteps
  have hhistory := optional_integerFrom hs.historyLimit (by decide : 1 ≤ (200 : Int))
  have hsize := optional_integerFrom hs.size (by decide : 1 ≤ (30000 : Int))
  have hminimum : Field.optional ms "cell_min" 0 integer = .ok c.minimum :=
    hs.minimum.optional_eq (fun h => by rw [h]) rfl
  have hmaximum := hs.checkBounds_eq
  rw [if_pos hb.reach] at hreach
  rw [if_pos hb.maxSteps] at hsteps
  rw [if_pos hb.historyLimit] at hhistory
  rw [if_pos hb.size] at hsize
  rw [if_pos hb.uncrossed, hminimum] at hmaximum
  simp only [Body.setup, Body.optional_text hs.code, Body.optional_text hs.input, hreach, hsteps, hhistory, hsize,
    hmaximum, hminimum]
  rfl

/-- What goes beyond a bound can be quoted. -/
theorem SentIn.body_setup_of_not_inBounds (hb : ¬ c.InBounds ms) (room : Room) :
    ∃ refusal, Body.setup room ms = .error refusal ∧ refusal.Sendable := by
  have hcross : ∀ p ∈ problem ms "cell_max" (Body.checkBounds ms (Field.optional ms "cell_min" 0 integer)
      (Field.optional ms "cell_max" 255 integer)), p.Reportable := by
    intro p hp
    rw [hs.checkBounds_eq] at hp
    split at hp
    · cases hp
    · next hmember =>
      obtain ⟨hnone, -⟩ | hsome := hs.maximum
      · exact absurd (Or.inl hnone) hmember
      · exact reportable_of_error hp hsome (quotable_integer _)
  unfold Body.setup
  dsimp only
  split
  · next hreach hsteps hhistory hsize _ hmaximum =>
    rw [optional_integerFrom hs.reach (by decide)] at hreach
    rw [optional_optionalIntegerFrom hs.maxSteps] at hsteps
    rw [optional_integerFrom hs.historyLimit (by decide)] at hhistory
    rw [optional_integerFrom hs.size (by decide)] at hsize
    rw [hs.checkBounds_eq] at hmaximum
    split_ifs at hreach hsteps hhistory hsize hmaximum
    exact absurd ⟨‹_›, ‹_›, ‹_›, ‹_›, ‹_›⟩ hb
  · refine ⟨_, rfl, _, rfl, ?_⟩
    simp only [List.mem_append]
    rintro p (((((((hp | hp) | hp) | hp) | hp) | hp) | hp) | hp)
    · rw [Body.optional_text hs.code] at hp
      cases hp
    · rw [Body.optional_text hs.input] at hp
      cases hp
    · exact hs.reach.reportable (quotable_integer _) p hp
    · exact hs.maxSteps.reportable (Body.quotable_ofInteger? _) p hp
    · exact hs.historyLimit.reportable (quotable_integer _) p hp
    · exact hs.size.reportable (quotable_integer _) p hp
    · exact hs.minimum.reportable (quotable_integer _) p hp
    · exact hcross p hp

end Members

section Start

theorem program_iff : c.instructions ≠ [] ∧ Balanced c.instructions ↔
    (Program.ofSource c.code.characters).validate = .ok () :=
  (Program.validate_rightly _).counts.symm

theorem Meaningful.inBounds (h : c.Meaningful) (ms : Json.Members) : c.InBounds ms :=
  ⟨h.reach, h.maxSteps, h.historyLimit, h.size, Or.inr (Int.le_trans h.range.1 h.range.2)⟩

theorem start_machine (hsteps : ∀ n, c.maxSteps = some n → 1 ≤ n) (tape : Tape) :
    ∃ m, Machine.start (.ofSource c.code.characters) tape
      (.ofValues (c.setup room).input (some (.integer tape.default))) (.empty .buffer) c.maxSteps = .ok m := by
  unfold Machine.start
  cases hlimit : c.maxSteps with
  | none => exact ⟨_, rfl⟩
  | some n =>
    have hn := hsteps n hlimit
    dsimp only
    rw [if_neg (by omega)]
    exact ⟨_, rfl⟩

/-- A configuration that means something has a machine, if there is room for its tape. -/
theorem Meaningful.start (h : c.Meaningful) (hroom : c.size ≤ room.cells) :
    ∃ s, Session.start (c.setup room) = .ok s := by
  have hv : (Program.ofSource (c.setup room).code).validate = .ok () := program_iff.mp h.program
  have hblank : Tape.blank (c.setup room).layout room =
      .ok ⟨c.minimum, c.maximum, 0, Array.replicate c.size.toNat 0⟩ :=
    Tape.blank_of_room h.size h.range hroom
  obtain ⟨m, hm⟩ := c.start_machine h.maxSteps ⟨c.minimum, c.maximum, 0, Array.replicate c.size.toNat 0⟩
  have hmachine : (c.setup room).machine (.ofSource (c.setup room).code) = .ok m := by
    have hsame : (c.setup room).room = room := rfl
    simp only [Setup.machine, hsame, hblank, bind, Except.bind]
    exact hm
  simp only [Session.start, hv, hmachine, bind, Except.bind]
  exact ⟨_, rfl⟩

/-- One that means nothing is refused for its program or for its cells, if nothing else is wrong with it. -/
theorem InBounds.start_error (hb : c.InBounds ms) (h : ¬ c.Meaningful) (room : Room) :
    ∃ f, Session.start (c.setup room) = .error f ∧
      (f.kind = .invalidProgram ∨ f.kind = .invalidConfiguration) := by
  cases hv : (Program.ofSource (c.setup room).code).validate with
  | error f =>
    refine ⟨f, ?_, Or.inl (Program.validate_kind hv)⟩
    simp only [Session.start, hv, bind, Except.bind]
  | ok u =>
    obtain ⟨hreach, hsteps, hhistory, hsize, -⟩ := hb
    have hrange : ¬ (c.minimum ≤ 0 ∧ 0 ≤ c.maximum) := by
      intro hrange
      exact h ⟨hreach, hsteps, hhistory, hsize, hrange, program_iff.mpr hv⟩
    obtain ⟨f, hblank, hkind⟩ :
        ∃ f, Tape.blank (c.setup room).layout (c.setup room).room = .error f ∧ f.kind = .invalidConfiguration := by
      have hblank : Tape.blank (c.setup room).layout room = _ := Tape.blank_eq c.size c.minimum c.maximum room
      rw [if_neg (by omega)] at hblank
      by_cases hcrossed : c.maximum < c.minimum
      · rw [if_pos hcrossed] at hblank
        exact ⟨_, hblank, rfl⟩
      · rw [if_neg hcrossed, if_pos (by omega)] at hblank
        exact ⟨_, hblank, rfl⟩
    refine ⟨f, ?_, Or.inr hkind⟩
    simp only [Session.start, hv, Setup.machine, hblank, bind, Except.bind]

end Start

end Configuration

namespace Store

/-- A record in the place of the new one. -/
theorem Tidy.put_append {s : Store} (h : s.Tidy) {r q : Record} (hid : q.id = s.nextId) :
    (s.append r).put q = s.append q := by
  have hlookup : s.records.lookup s.nextId = none := h.find_nextId
  have hkeys : ∀ entry ∈ s.records, entry.1 ≠ s.nextId := by
    intro entry hentry heq
    have hne := List.lookup_eq_none_iff.mp hlookup entry hentry
    simp [heq] at hne
  have hmap : ∀ f : String × Record → String × Record, (∀ x ∈ s.records, f x = x) →
      s.records.map f = s.records := by
    intro f hf
    exact (List.map_congr_left hf).trans (List.map_id' _)
  simp only [put, append, List.map_append]
  rw [hmap]
  · simp [hid]
  · rintro ⟨id, r⟩ hentry
    have hne : id ≠ q.id := hid ▸ hkeys _ hentry
    simp [hne]

end Store

namespace Service
variable {v : Service} {request : Request} {ms : Json.Members} {c : Configuration} {fuel : ℕ}

/-- How a service answers a request for a new session. If the configuration means something the session is stored
behind all others, under a name that no other has, and nothing else changes in the store; and otherwise nothing
changes. -/
structure Decides (fuel : ℕ) (v : Service) (request : Request) (c : Configuration) : Prop where
  created : c.Meaningful → ∃ r, (v.answer fuel request).2 = .ok ⟨201, .json (Payload.ofRecord r)⟩ ∧
    r.id = v.store.nextId ∧ v.find r.id = none ∧ Session.start (c.setup v.room) = .ok r.session ∧
      (v.answer fuel request).1.store = v.store.append r
  refused : ¬ c.Meaningful → ∃ detail, v.answer fuel request = (v, .ok (.detailed 422 detail))

theorem create_of_start (hv : v.store.Tidy) {code : Json.Literal} {setup : Setup} {session : Session}
    (hs : Session.start setup = .ok session) (hcode : Text.gap? code.points = none) :
    ∃ r, (v.create code setup).2 = .ok ⟨201, .json (Payload.ofRecord r)⟩ ∧ r.id = v.store.nextId ∧
      r.session = session ∧ (v.create code setup).1.store = v.store.append r := by
  obtain ⟨-, dry, -, -, hdry⟩ := DryRun.of_start hs (by decide : 0 ≤ DryRun.defaultCap)
  refine ⟨⟨v.store.nextId, code, session, dry.total, dry.capped⟩, ?_, rfl, rfl, ?_⟩
  · simp only [create, Store.create, hs, hdry, bind, Except.bind, pure, Except.pure]
    refine ofValue_of_gap ?_ 201
    rw [Payload.gap_ofRecord]
    exact hcode
  · simp only [create, Store.create, hs, hdry, bind, Except.bind, pure, Except.pure]
    exact hv.put_append (r := ⟨v.store.nextId, code, session, 0, false⟩) rfl

theorem create_of_start_error {code : Json.Literal} {setup : Setup} {f : Fault}
    (hs : Session.start setup = .error f) (hkind : f.kind = .invalidProgram ∨ f.kind = .invalidConfiguration) :
    v.create code setup = (v, .ok (.explained 422 f.message)) := by
  have hrefuse : refuseStart f = .ok (.explained 422 f.message) := by
    obtain hkind | hkind := hkind
    · simp only [refuseStart, hkind]
    · simp only [refuseStart, hkind]
  simp only [create, Store.create, hs, bind, Except.bind, hrefuse]

theorem decides (hv : v.store.Tidy) (hroute : request.route? v.files.isSome = some .sessions)
    (hms : Body.members request.body = .ok ms) (hs : c.SentIn ms)
    (hroom : c.Meaningful → c.size ≤ v.room.cells) (hcode : c.Meaningful → Text.gap? c.code.points = none) :
    Decides fuel v request c := by
  have hserve : v.answer fuel request = v.serve fuel request .sessions := answer_of_route hroute
  constructor
  · intro h
    obtain ⟨session, hstart⟩ := h.start (hroom h)
    have hsetup : Body.members request.body >>= Body.setup v.room = .ok (c.code, c.setup v.room) := by
      rw [hms]
      exact hs.body_setup_of_inBounds (h.inBounds ms) v.room
    obtain ⟨r, hanswer, hid, rfl, hstore⟩ := create_of_start hv hstart (hcode h)
    refine ⟨r, ?_, hid, ?_, hstart, ?_⟩
    · rw [hserve]
      simp only [serve, hsetup]
      exact hanswer
    · rw [hid]
      exact hv.find_nextId
    · rw [hserve]
      simp only [serve, hsetup]
      exact hstore
  · intro h
    rw [hserve]
    by_cases hb : c.InBounds ms
    · have hsetup : Body.members request.body >>= Body.setup v.room = .ok (c.code, c.setup v.room) := by
        rw [hms]
        exact hs.body_setup_of_inBounds hb v.room
      obtain ⟨f, hstart, hkind⟩ := hb.start_error h v.room
      refine ⟨.text f.message, ?_⟩
      simp only [serve, hsetup]
      exact create_of_start_error hstart hkind
    · obtain ⟨refusal, hsetup, hsendable⟩ := hs.body_setup_of_not_inBounds hb v.room
      have hrefused : Body.members request.body >>= Body.setup v.room = .error refusal := by
        rw [hms]
        exact hsetup
      obtain ⟨detail, hdetail⟩ := hsendable.refused
      refine ⟨detail, ?_⟩
      simp only [serve, hrefused, hdetail]

end Service

end Brainfuck.Api
