import Brainfuck.Proofs.Judges

/-! Refusals that are sent. A refusal quotes what it is about, and only what cannot be written keeps it from being
sent; a body whose fields have the types they should have is refused with integers at most. -/
namespace Brainfuck

namespace Text

theorem gap_eq_none_iff (ps : List Point) : gap? ps = none ↔ ∀ p ∈ ps, p.isHalf = false := by
  have hfind : ∀ i, findGap? i ps = none ↔ ∀ p ∈ ps, p.isHalf = false := by
    induction ps with
    | nil => simp [findGap?]
    | cons p ps ih =>
      intro i
      cases p with
      | char c => simp [findGap?, ih, Point.isHalf]
      | half n => simp [findGap?, Point.isHalf]
  exact hfind 0

theorem isHalf_of_mem_chars {cs : List Char} {p : Point} (hp : p ∈ cs.map Point.char) : p.isHalf = false := by
  obtain ⟨c, -, rfl⟩ := List.mem_map.mp hp
  rfl

end Text

namespace Json
open Text (Point)
variable {p : Point}

theorem isHalf_of_mem_escaped {q : Point} (hq : q.isHalf = false) (hp : p ∈ escaped q) : p.isHalf = false := by
  obtain ⟨c, rfl⟩ : ∃ c, q = .char c := by
    cases q with
    | char c => exact ⟨c, rfl⟩
    | half n => cases hq
  obtain ⟨cs, hcs⟩ : ∃ cs : List Char, escaped (.char c) = cs.map Point.char := by
    unfold escaped
    split
    · exact ⟨['\x5c', c], rfl⟩
    · exact ⟨['\x5c', c], rfl⟩
    · exact ⟨_, rfl⟩
    · exact ⟨_, rfl⟩
    · exact ⟨_, rfl⟩
    · exact ⟨_, rfl⟩
    · exact ⟨_, rfl⟩
    · split
      · exact ⟨_, rfl⟩
      · exact ⟨[c], rfl⟩
  rw [hcs] at hp
  exact Text.isHalf_of_mem_chars hp

theorem isHalf_of_mem_literal {l : Literal} (hl : Text.gap? l.points = none) (hp : p ∈ l.compact) :
    p.isHalf = false := by
  have hpoints := (Text.gap_eq_none_iff _).mp hl
  simp only [Literal.compact, List.mem_cons, List.mem_append, List.mem_flatMap, List.not_mem_nil, or_false] at hp
  obtain rfl | ⟨q, hq, hp⟩ | rfl := hp
  · rfl
  · exact isHalf_of_mem_escaped (hpoints q hq) hp
  · rfl

theorem mem_commaSeparated {xs : List (List Point)} (hp : p ∈ commaSeparated xs) :
    p = .char ',' ∨ ∃ x ∈ xs, p ∈ x := by
  induction xs with
  | nil => cases hp
  | cons x xs ih =>
    cases xs with
    | nil => exact Or.inr ⟨x, List.mem_cons_self, hp⟩
    | cons y ys =>
      simp only [commaSeparated, List.mem_append, List.mem_cons] at hp
      obtain hp | rfl | hp := hp
      · exact Or.inr ⟨x, List.mem_cons_self, hp⟩
      · exact Or.inl rfl
      · obtain rfl | ⟨z, hz, hp⟩ := ih hp
        · exact Or.inl rfl
        · exact Or.inr ⟨z, List.mem_cons_of_mem _ hz, hp⟩

theorem isHalf_of_mem_between {xs : List (List Point)} {first last : Char}
    (hxs : ∀ x ∈ xs, ∀ p ∈ x, p.isHalf = false)
    (hp : p ∈ Point.char first :: (commaSeparated xs ++ [.char last])) : p.isHalf = false := by
  simp only [List.mem_cons, List.mem_append, List.not_mem_nil, or_false] at hp
  obtain rfl | hp | rfl := hp
  · rfl
  · obtain rfl | ⟨x, hx, hp⟩ := mem_commaSeparated hp
    · rfl
    · exact hxs x hx p hp
  · rfl

mutual

/-- A value without broken texts is written without halves. -/
theorem isHalf_of_mem_compact : ∀ (x : Json), x.gap? = none → ∀ p ∈ x.compact, p.isHalf = false
  | .null, _, _, hp => Text.isHalf_of_mem_chars hp
  | .truth _, _, _, hp => Text.isHalf_of_mem_chars hp
  | .integer _, _, _, hp => Text.isHalf_of_mem_chars hp
  | .real _, _, _, hp => Text.isHalf_of_mem_chars hp
  | .text _, h, _, hp => isHalf_of_mem_literal h hp
  | .array items, h, _, hp => isHalf_of_mem_between (isHalf_of_mem_items items h) hp
  | .object members, h, _, hp => isHalf_of_mem_between (isHalf_of_mem_members members h) hp

theorem isHalf_of_mem_items : ∀ (items : List Json), gapAmong? items = none →
    ∀ x ∈ compactItems items, ∀ p ∈ x, p.isHalf = false
  | [], _, _, hx => by cases hx
  | x :: rest, h, y, hy => by
    obtain ⟨hx, hrest⟩ : x.gap? = none ∧ gapAmong? rest = none := by simpa [gapAmong?] using h
    obtain rfl | hy := List.mem_cons.mp hy
    · exact isHalf_of_mem_compact x hx
    · exact isHalf_of_mem_items rest hrest y hy

theorem isHalf_of_mem_members : ∀ (members : Members), gapInMembers? members = none →
    ∀ x ∈ compactMembers members, ∀ p ∈ x, p.isHalf = false
  | [], _, _, hx => by cases hx
  | (name, x) :: rest, h, y, hy => by
    obtain ⟨hname, hx, hrest⟩ : Text.gap? name.points = none ∧ x.gap? = none ∧ gapInMembers? rest = none := by
      simpa [gapInMembers?] using h
    obtain rfl | hy := List.mem_cons.mp hy
    · intro p hp
      simp only [List.mem_append, List.mem_cons] at hp
      obtain hp | rfl | hp := hp
      · exact isHalf_of_mem_literal hname hp
      · rfl
      · exact isHalf_of_mem_compact x hx p hp
    · exact isHalf_of_mem_members rest hrest y hy

end

theorem gap_compact {x : Json} (h : x.gap? = none) : Text.gap? x.compact = none :=
  (Text.gap_eq_none_iff _).mpr (isHalf_of_mem_compact x h)

end Json

namespace Api

structure Quotable (x : Json) : Prop where
  depth : (Problem.quote x).obstacle? (Response.maxDepth - 3) = none
  whole : (Problem.quote x).gap? = none

structure Problem.Reportable (p : Problem) : Prop where
  location : ∃ names : List String, p.location = names.map fun name => .text (.whole name)
  input : Quotable p.input

def Refusal.Sendable (refusal : Refusal) : Prop :=
  ∃ ps, refusal = .problems ps ∧ ∀ p ∈ ps, p.Reportable

theorem quotable_null : Quotable .null :=
  ⟨rfl, rfl⟩

theorem quotable_integer (n : Int) : Quotable (.integer n) :=
  ⟨rfl, rfl⟩

theorem quotable_truth (b : Bool) : Quotable (.truth b) :=
  ⟨rfl, rfl⟩

theorem quotable_text (s : String) : Quotable (.text s) :=
  ⟨rfl, gap?_ofString s⟩

namespace Problem
variable {p : Problem} {ps : List Problem}

theorem obstacleAmong_names (depth : Nat) (names : List String) :
    Json.obstacleAmong? depth (names.map fun name => .text (.whole name)) = none := by
  induction names with
  | nil => rfl
  | cons name names ih => simpa [Json.obstacleAmong?, Json.obstacle?] using ih

theorem gapAmong_names (names : List String) : Json.gapAmong? (names.map fun name => .text (.whole name)) = none := by
  induction names with
  | nil => rfl
  | cons name names ih => simpa [Json.gapAmong?, Json.gap?, Json.Literal.points, gap?_ofString] using ih

theorem obstacle_context (d : Defect) :
    Json.obstacleInMembers? 963 (d.context?.toList.map fun c => ("ctx", c)) = none := by
  cases d <;> rfl

theorem gap_context (d : Defect) : Json.gapInMembers? (d.context?.toList.map fun c => ("ctx", c)) = none := by
  cases d <;> rfl

theorem obstacleInMembers_append (depth : Nat) (ms ms' : Json.Members) :
    Json.obstacleInMembers? depth (ms ++ ms') =
      (Json.obstacleInMembers? depth ms <|> Json.obstacleInMembers? depth ms') := by
  induction ms with
  | nil => rfl
  | cons m ms ih => simp [Json.obstacleInMembers?, ih, Option.or_assoc]

theorem gapInMembers_append (ms ms' : Json.Members) :
    Json.gapInMembers? (ms ++ ms') = (Json.gapInMembers? ms <|> Json.gapInMembers? ms') := by
  induction ms with
  | nil => rfl
  | cons m ms ih => simp [Json.gapInMembers?, ih, Option.or_assoc]

theorem Reportable.obstacle_toJson (h : p.Reportable) : p.toJson.obstacle? 964 = none := by
  obtain ⟨⟨names, hnames⟩, hdepth, -⟩ := h
  have hinput : (quote p.input).obstacle? 963 = none := hdepth
  have hlocation : (Json.array p.location).obstacle? 963 = none := by
    rw [hnames]
    exact obstacleAmong_names 962 names
  unfold toJson
  rw [Json.obstacle?, if_neg (by decide), obstacleInMembers_append, obstacle_context]
  simp only [Json.obstacleInMembers?, hlocation, hinput]
  rfl

theorem Reportable.gap_toJson (h : p.Reportable) : p.toJson.gap? = none := by
  obtain ⟨⟨names, hnames⟩, -, hwhole⟩ := h
  have hlocation : Json.gapAmong? p.location = none := by
    rw [hnames]
    exact gapAmong_names names
  unfold toJson
  rw [Json.gap?, gapInMembers_append, gap_context]
  simp [Json.gapInMembers?, Json.gap?, Json.Literal.points, gap?_ofString, hlocation, hwhole]

theorem obstacleAmong_toJson (h : ∀ p ∈ ps, p.Reportable) : Json.obstacleAmong? 964 (ps.map toJson) = none := by
  induction ps with
  | nil => rfl
  | cons p ps ih =>
    obtain ⟨hp, hps⟩ := List.forall_mem_cons.mp h
    rw [List.map_cons, Json.obstacleAmong?, hp.obstacle_toJson, ih hps]
    rfl

theorem gapAmong_toJson (h : ∀ p ∈ ps, p.Reportable) : Json.gapAmong? (ps.map toJson) = none := by
  induction ps with
  | nil => rfl
  | cons p ps ih =>
    obtain ⟨hp, hps⟩ := List.forall_mem_cons.mp h
    rw [List.map_cons, Json.gapAmong?, hp.gap_toJson, ih hps]
    rfl

end Problem

/-- Problems that can all be reported are reported. -/
theorem Refusal.Sendable.refused {refusal : Refusal} (h : refusal.Sendable) :
    ∃ detail, Response.refused refusal = .ok (.detailed 422 detail) := by
  obtain ⟨ps, rfl, hps⟩ := h
  have hobstacle : (Json.object [("detail", .array (ps.map Problem.toJson))]).obstacle? Response.maxDepth = none := by
    simp [Response.maxDepth, Json.obstacle?, Json.obstacleInMembers?, Problem.obstacleAmong_toJson hps]
  have hgap : (Json.object [("detail", .array (ps.map Problem.toJson))]).gap? = none := by
    simp [Json.gap?, Json.gapInMembers?, Json.Literal.points, gap?_ofString, Problem.gapAmong_toJson hps]
  refine ⟨.array (ps.map Problem.toJson), ?_⟩
  simp only [Response.refused, hobstacle, Json.gap_compact hgap]

namespace Field
variable {α : Type} {ms : Json.Members} {field : String} {default value : α} {write : α → Json}
  {read : Json → Except Defect α}

/-- A member that is a value as it is written, or one that is left out where the value is the default. -/
def Given (ms : Json.Members) (field : String) (default : α) (write : α → Json) (value : α) : Prop :=
  Json.member? ms field = none ∧ value = default ∨ Json.member? ms field = some (write value)

theorem Given.optional_eq (h : Given ms field default write value) {r : Except Defect α}
    (hdefault : value = default → r = .ok default) (hread : read (write value) = r) :
    optional ms field default read = r := by
  obtain ⟨hnone, hvalue⟩ | hsome := h
  · rw [optional, hnone, hdefault hvalue]
  · rw [optional, hsome]
    exact hread

theorem reportable_of_error {d : Defect} {p : Problem} {x : Json}
    (hp : p ∈ problem ms field (.error d : Except Defect α)) (hx : Json.member? ms field = some x)
    (hquotable : Quotable x) : p.Reportable := by
  obtain rfl := List.mem_singleton.mp hp
  refine ⟨⟨["body", field], rfl⟩, ?_⟩
  rw [hx]
  exact hquotable

/-- What a field is given can be quoted, and what it is not given does not fail. -/
theorem Given.reportable (h : Given ms field default write value) (hquotable : Quotable (write value)) :
    ∀ p ∈ problem ms field (optional ms field default read), p.Reportable := by
  intro p hp
  obtain ⟨hnone, -⟩ | hsome := h
  · rw [optional, hnone] at hp
    cases hp
  · cases hread : optional ms field default read with
    | ok a =>
      rw [hread] at hp
      cases hp
    | error d =>
      rw [hread] at hp
      exact reportable_of_error hp hsome hquotable

end Field

namespace Body
open Api.Field
variable {ms : Json.Members} {refusal : Refusal}

theorem single_sendable {α : Type} {field : String} {found : Except Defect α}
    (hfound : ∀ p ∈ problem ms field found, p.Reportable) (h : single ms field found = .error refusal) :
    refusal.Sendable := by
  cases found with
  | ok a => cases h
  | error d =>
    obtain rfl := Except.error.inj h
    exact ⟨_, rfl, hfound⟩

theorem optional_text {field : String} {l : Json.Literal} (hl : Given ms field (.whole "") .text l) :
    Field.optional ms field (.whole "") text = .ok l :=
  hl.optional_eq (fun h => by rw [h]) rfl

/-- A text is no reason for a refusal. -/
theorem code_of_given {l : Json.Literal} (hl : Given ms "code" (.whole "") .text l) : code ms = .ok l := by
  rw [code, optional_text hl]
  rfl

theorem count_sendable {n : Int} (hn : Given ms "count" 1 .integer n) (h : count ms = .error refusal) :
    refusal.Sendable :=
  single_sendable (hn.reportable (quotable_integer n)) h

theorem quotable_ofInteger? (n : Option Int) : Quotable (Payload.ofInteger? n) := by
  cases n with
  | none => exact quotable_null
  | some n => exact quotable_integer n

theorem run_sendable {limit : Option Int} {ignore : Bool} (hlimit : Given ms "limit" none Payload.ofInteger? limit)
    (hignore : Given ms "ignore_breakpoints" false .truth ignore) (h : run ms = .error refusal) :
    refusal.Sendable := by
  unfold run at h
  dsimp only at h
  split at h
  · cases h
  · obtain rfl := Except.error.inj h
    refine ⟨_, rfl, ?_⟩
    intro p hp
    obtain hp | hp := List.mem_append.mp hp
    · exact hlimit.reportable (quotable_ofInteger? limit) p hp
    · exact hignore.reportable (quotable_truth ignore) p hp

/-- The whole body is quoted where the position is missing. -/
theorem position_sendable
    (hpc : (∃ n, Json.member? ms "pc" = some (.integer n)) ∨ Json.member? ms "pc" = none ∧ Quotable (.object ms))
    (h : position ms = .error refusal) : refusal.Sendable := by
  refine single_sendable ?_ h
  intro p hp
  obtain ⟨n, hsome⟩ | ⟨hnone, hquotable⟩ := hpc
  · cases hread : required ms "pc" (integerFrom 0) with
    | ok n =>
      rw [hread] at hp
      cases hp
    | error d =>
      rw [hread] at hp
      exact reportable_of_error hp hsome (quotable_integer n)
  · rw [required, hnone] at hp
    obtain rfl := List.mem_singleton.mp hp
    refine ⟨⟨["body", "pc"], rfl⟩, ?_⟩
    rw [hnone]
    exact hquotable

end Body

end Api

end Brainfuck
