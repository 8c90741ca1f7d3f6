import Brainfuck.Text.Numeral
import Brainfuck.Text.Quoted

/-! Command lines: switches with and without values, and one operand. -/
namespace Brainfuck.CommandLine

/-- What a switch does to the settings. A value that is withheld is none. -/
inductive Action (σ : Type) where
  | help
  | flag (set : σ → σ)
  | text (set : Option String → σ → σ)
  | number (set : Option Int → σ → σ)

structure Switch (σ : Type) where
  names : List String
  action : Action σ

/-- An argument that belongs to no switch. -/
structure Operand (σ : Type) where
  name : String
  required : Bool
  set : String → σ → σ

structure Grammar (σ : Type) where
  program : String
  usage : String
  details : String
  switches : List (Switch σ)
  operand : Option (Operand σ)

inductive Refusal where
  | ambiguous (argument : String) (names : List String)
  | missingValue (switch : String)
  | superfluousValue (switch value : String)
  | notAnInteger (switch value : String)
  | missingOperand (name : String)
  | unrecognized (arguments : List String)
  deriving DecidableEq, Repr

def Refusal.message : Refusal → String
  | ambiguous argument names =>
    s!"ambiguous option: {argument} could match " ++ ", ".intercalate names
  | missingValue switch => s!"argument {switch}: expected one argument"
  | superfluousValue switch value =>
    s!"argument {switch}: ignored explicit argument {Text.quote value}"
  | notAnInteger switch value => s!"argument {switch}: invalid int value: {Text.quote value}"
  | missingOperand name => s!"the following arguments are required: {name}"
  | unrecognized arguments => "unrecognized arguments: " ++ " ".intercalate arguments

/-- What a command line asks for: help, or a run with some settings. -/
inductive Request (σ : Type) where
  | help
  | settings (s : σ)

def Switch.takesValue {σ : Type} (s : Switch σ) : Bool :=
  match s.action with
  | .text _ | .number _ => true
  | _ => false

def Switch.display {σ : Type} (s : Switch σ) : String :=
  "/".intercalate s.names

/-- An argument that is read as a switch: the switch, if there is such a one, whether its spelling is
a short one, and what is attached to it. -/
structure Choice (σ : Type) where
  switch : Option (Switch σ)
  short : Bool
  attached : Option (List Char)

inductive Mark (σ : Type) where
  | value
  | dashes
  | choice (c : Choice σ)

namespace Grammar

variable {σ : Type}

def spellings (g : Grammar σ) : List (String × Switch σ) :=
  g.switches.flatMap fun s => s.names.map fun name => (name, s)

def find? (g : Grammar σ) (name : String) : Option (Switch σ) :=
  g.spellings.lookup name

def splitAtEquals (cs : List Char) : List Char × Option (List Char) :=
  match cs.dropWhile (· != '=') with
  | [] => (cs, none)
  | _ :: value => (cs.takeWhile (· != '='), some value)

/-- Whether an argument is a negative number; a line feed may follow it. -/
def isNegativeNumber (cs : List Char) : Bool :=
  match cs with
  | '-' :: cs =>
    let cs := if cs.getLast? == some '\n' then cs.dropLast else cs
    match cs.dropWhile Text.isDigit with
    | [] => !cs.isEmpty
    | '.' :: fraction => !fraction.isEmpty && fraction.all Text.isDigit
    | _ => false
  | _ => false

/-- The switches that an argument may abbreviate, with the values attached to it. A long switch may be
cut short; a short one may have its value right behind it. -/
def candidates (g : Grammar σ) (cs : List Char) : List (String × Choice σ) :=
  match cs with
  | '-' :: '-' :: _ =>
    let (name, value) := splitAtEquals cs
    g.spellings.filterMap fun (spelling, s) =>
      if name.isPrefixOf spelling.toList then some (spelling, ⟨some s, false, value⟩)
      else none
  | '-' :: c :: value =>
    g.spellings.filterMap fun (spelling, s) =>
      if spelling.toList == ['-', c] then some (spelling, ⟨some s, true, some value⟩)
      else if cs.isPrefixOf spelling.toList then some (spelling, ⟨some s, false, none⟩)
      else none
  | _ => []

def isShort (name : List Char) : Bool :=
  match name with
  | '-' :: '-' :: _ => false
  | _ => true

/-- Reads an argument in front of the two dashes that end the switches. Negative numbers and texts
with a space are values even if a dash begins them. -/
def classify (g : Grammar σ) (argument : String) : Except Refusal (Mark σ) :=
  let cs := argument.toList
  if cs.head? != some '-' then .ok .value
  else
    match g.find? argument with
    | some s => .ok (.choice ⟨some s, isShort cs, none⟩)
    | none =>
      if cs.length = 1 then .ok .value
      else
        let (name, value) := splitAtEquals cs
        match value, g.find? (String.ofList name) with
        | some value, some s => .ok (.choice ⟨some s, isShort name, some value⟩)
        | _, _ =>
          match g.candidates cs with
          | [(_, choice)] => .ok (.choice choice)
          | [] =>
            if isNegativeNumber cs || cs.contains ' ' then .ok .value
            else .ok (.choice ⟨none, false, none⟩)
          | several => .error (.ambiguous argument (several.map Prod.fst))

/-- Reads all arguments. Behind two dashes all are values. -/
def classifyAll (g : Grammar σ) : List String → Except Refusal (List (String × Mark σ))
  | [] => .ok []
  | a :: rest =>
    if a == "--" then .ok ((a, .dashes) :: rest.map fun b => (b, .value))
    else do
      let mark ← g.classify a
      let marks ← g.classifyAll rest
      return (a, mark) :: marks

inductive Given where
  | nothing
  | withheld
  | text (s : String)
  deriving DecidableEq, Repr

/-- What is given by the characters attached to a switch. Two dashes are taken away wherever they end the
switches, also where they are attached to one, as older readers of command lines do; newer ones take
them as the value. -/
def Given.ofAttached (cs : List Char) : Given :=
  if cs == ['-', '-'] then withheld else text (String.ofList cs)

/-- The switches in one argument: those in front with what they are given, and one whose value is the
next argument. -/
structure Cluster (σ : Type) where
  ready : List (Switch σ × Given)
  waiting : Option (Switch σ)

def alone (s : Switch σ) : Cluster σ :=
  if s.takesValue then ⟨[], some s⟩ else ⟨[(s, .nothing)], none⟩

/-- A switch with what is attached to it. Short switches without a value may share an argument. -/
def cluster (g : Grammar σ) (s : Switch σ) (short : Bool) (attached : List Char) :
    Except Refusal (Cluster σ) :=
  let refused : Except Refusal (Cluster σ) :=
    .error (.superfluousValue s.display (String.ofList attached))
  if s.takesValue then .ok ⟨[(s, .ofAttached attached)], none⟩
  else
    match attached with
    | [] => refused
    | c :: rest =>
      match short, g.find? (String.ofList ['-', c]) with
      | true, some next =>
        let behind := if rest.isEmpty then .ok (alone next) else g.cluster next true rest
        behind.map fun found => { found with ready := (s, .nothing) :: found.ready }
      | _, _ => refused
termination_by attached.length

def apply (s : Switch σ) (given : Given) (x : σ) : Except Refusal (Request σ) :=
  match s.action, given with
  | .help, _ => .ok .help
  | .flag set, _ => .ok (.settings (set x))
  | .text set, .text value => .ok (.settings (set (some value) x))
  | .text set, _ => .ok (.settings (set none x))
  | .number set, .text value =>
    match Text.integer? value with
    | some n => .ok (.settings (set (some n) x))
    | none => .error (.notAnInteger s.display value)
  | .number set, _ => .ok (.settings (set none x))

/-- Applies switches one after the other, up to one that asks for help. -/
def applyAll : List (Switch σ × Given) → σ → Except Refusal (Request σ)
  | [], x => .ok (.settings x)
  | (s, given) :: rest, x => do
    match ← apply s given x with
    | .help => return .help
    | .settings x => applyAll rest x

/-- What has been read of a command line: the settings so far, the operand unless it has been given,
and the arguments that nothing accounts for. -/
structure Progress (σ : Type) where
  settings : σ
  operand : Option (Operand σ)
  strays : List String

namespace Progress

/-- The request of a command line that has been read to its end. A missing operand is reported
before arguments that nothing accounts for. -/
def finish (p : Progress σ) : Except Refusal (Request σ) :=
  match p.operand.filter Operand.required with
  | some operand => .error (.missingOperand operand.name)
  | none => if p.strays.isEmpty then .ok (.settings p.settings) else .error (.unrecognized p.strays)

def take (p : Progress σ) (operand : Operand σ) (value : String) : Progress σ :=
  { p with settings := operand.set value p.settings, operand := none }

def stray (p : Progress σ) (value : String) : Progress σ :=
  { p with strays := p.strays ++ [value] }

end Progress

/-- Reads on. The first value that no switch takes is the operand; the dashes beside it do not
count. Help ends the reading. -/
def readFrom (g : Grammar σ) (p : Progress σ) : List (String × Mark σ) → Except Refusal (Request σ)
  | [] => p.finish
  | (a, .value) :: rest =>
    match p.operand, rest with
    | some operand, (_, .dashes) :: rest => readFrom g (p.take operand a) rest
    | some operand, rest => readFrom g (p.take operand a) rest
    | none, rest => readFrom g (p.stray a) rest
  | (a, .dashes) :: rest =>
    match p.operand, rest with
    | some operand, (b, _) :: rest => readFrom g (p.take operand b) rest
    | some _, [] => p.finish
    | none, rest => readFrom g (p.stray a) rest
  | (a, .choice c) :: rest =>
    match c.switch with
    | none => readFrom g (p.stray a) rest
    | some s => do
      let found ← c.attached.elim (.ok (alone s)) (g.cluster s c.short)
      match found.waiting, rest with
      | none, rest =>
        match ← applyAll found.ready p.settings with
        | .help => return .help
        | .settings settings => readFrom g { p with settings } rest
      | some w, (b, .value) :: rest =>
        match ← applyAll (found.ready ++ [(w, .text b)]) p.settings with
        | .help => return .help
        | .settings settings => readFrom g { p with settings } rest
      | some w, _ => .error (.missingValue w.display)

def read (g : Grammar σ) (settings : σ) (arguments : List String) : Except Refusal (Request σ) := do
  let marks ← g.classifyAll arguments
  g.readFrom ⟨settings, g.operand, []⟩ marks

def help (g : Grammar σ) : String :=
  g.usage ++ "\n" ++ g.details

def complaint (g : Grammar σ) (r : Refusal) : String :=
  g.usage ++ s!"{g.program}: error: {r.message}\n"

end Grammar

end Brainfuck.CommandLine
