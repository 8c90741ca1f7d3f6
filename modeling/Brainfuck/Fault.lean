import Brainfuck.Datum
import Brainfuck.Files.Path
import Brainfuck.Text.Point
import Brainfuck.Text.Words

/-! Everything that can go wrong, by cause. -/
namespace Brainfuck

inductive Fault where
  | invalidSize (size : Int)
  | emptyRange (minimum maximum : Int)
  | defaultOutOfRange (default minimum maximum : Int)
  | negativeLimit (limit : Int)
  | twoSources
  | noSource
  | unreadable (path : String) (defect : ReadDefect)
  | notAnIndex (what : String) (given : Datum)
  | indexOutOfBounds (what : String) (index size : Int)
  | notACellValue (given : Datum)
  | cellOutOfRange (value index minimum maximum : Int)
  | notAByte (given : Datum)
  | emptyProgram
  | unmatchedClose (position : Nat)
  | unmatchedOpen (position : Nat)
  | invalidInstruction (token : Datum)
  | stepLimit
  | inputExhausted
  | inputEnded
  | wrongType
  | nulInPath
  | undecodableInput (defect : Text.Utf8.Defect)
  | stepperExhausted
  | unwordable (defect : Text.Words.Defect)
  | unknownSession (id : String)
  | unknownLevel (name : String)
  | withheldLevel
  | tooManyCells
  | outOfMemory
  | notFinite
  | tooDeep
  | notAFile
  | unencodable (gap : Text.Gap)
  | unserializable (gap : Text.Gap)

/-- The kinds of failures that callers tell apart. -/
inductive Fault.Kind where
  | invalidConfiguration
  | sourceUnavailable
  | indexOutOfBounds
  | valueOutOfRange
  | invalidProgram
  | invalidInstruction
  | stepLimitExceeded
  | endOfInput
  | invalidValue
  | invalidType
  | undecodable
  | exhausted
  | unknownKey
  | withheld
  | overflow
  | outOfMemory
  | tooDeep
  | notAFile
  | unencodable
  | unserializable
  deriving DecidableEq, Repr

namespace Fault

def kind : Fault → Kind
  | invalidSize .. | emptyRange .. | defaultOutOfRange .. | negativeLimit .. | twoSources | noSource =>
    .invalidConfiguration
  | unreadable .. => .sourceUnavailable
  | notAnIndex .. | indexOutOfBounds .. => .indexOutOfBounds
  | notACellValue .. | cellOutOfRange .. | notAByte .. => .valueOutOfRange
  | emptyProgram | unmatchedClose .. | unmatchedOpen .. => .invalidProgram
  | invalidInstruction .. => .invalidInstruction
  | stepLimit => .stepLimitExceeded
  | inputExhausted | inputEnded => .endOfInput
  | nulInPath | unwordable .. | unknownLevel .. | notFinite => .invalidValue
  | wrongType => .invalidType
  | undecodableInput .. => .undecodable
  | stepperExhausted => .exhausted
  | unknownSession .. => .unknownKey
  | withheldLevel => .withheld
  | tooManyCells => .overflow
  | outOfMemory => .outOfMemory
  | tooDeep => .tooDeep
  | notAFile => .notAFile
  | unencodable .. => .unencodable
  | unserializable .. => .unserializable

def message : Fault → String
  | invalidSize size => s!"Invalid memory size: {size}"
  | emptyRange minimum maximum =>
    s!"Invalid memory range: minimum {minimum} exceeds maximum {maximum}"
  | defaultOutOfRange default minimum maximum =>
    s!"Invalid default memory value {default} for range [{minimum}, {maximum}]"
  | negativeLimit limit => s!"max_steps must be non-negative, got {limit}"
  | twoSources => "Must pass only one of file or source"
  | noSource => "Must pass a file or a source string"
  | unreadable path defect => s!"Cannot read program source {path}: {defect.message}"
  | notAnIndex what given => s!"{what} must be an integer, got {given.written}"
  | indexOutOfBounds what index size => s!"{what} {index} out of bounds (size {size})"
  | notACellValue given => s!"Cell values must be integers, got {given.written}"
  | cellOutOfRange value index minimum maximum =>
    s!"Invalid value {value} for cell {index}; expected [{minimum}, {maximum}]"
  | notAByte given => s!"Must write exactly one byte, got {given.plain}"
  | emptyProgram => "empty program"
  | unmatchedClose position => s!"unmatched ']' at instruction {position}"
  | unmatchedOpen position => s!"unmatched '[' at instruction {position}"
  | invalidInstruction token => s!"Cannot execute invalid instruction: {token.written}"
  | stepLimit => "Brainfuck program exceeded allowed step count"
  | inputExhausted => "Buffered input exhausted"
  | inputEnded => "End of input stream"
  | wrongType => ""
  | nulInPath => "embedded null byte"
  | undecodableInput defect => defect.message
  | stepperExhausted => ""
  | unwordable defect => defect.message
  | unknownSession id => Text.quote s!"Unknown session id: {id}"
  | unknownLevel name => s!"Unknown level: {Text.quote name}"
  | withheldLevel => ""
  | tooManyCells => ""
  | outOfMemory => ""
  | notFinite => "Out of range float values are not JSON compliant"
  | tooDeep => ""
  | notAFile => ""
  | unencodable gap => gap.message
  | unserializable gap => s!"Error serializing to JSON: UnicodeEncodeError: {gap.message}"

end Fault

namespace Fault.Kind

/-- Whether failures of this kind are the machine's own, which every front end reports in its way. -/
def isMachine : Kind → Bool
  | invalidConfiguration | sourceUnavailable | indexOutOfBounds | valueOutOfRange | invalidProgram
  | invalidInstruction | stepLimitExceeded => true
  | _ => false

def name : Kind → String
  | invalidConfiguration => "InvalidConfiguration"
  | sourceUnavailable => "SourceUnavailable"
  | indexOutOfBounds => "IndexOutOfBounds"
  | valueOutOfRange => "ValueOutOfRange"
  | invalidProgram => "InvalidProgram"
  | invalidInstruction => "InvalidInstruction"
  | stepLimitExceeded => "StepLimitExceeded"
  | endOfInput => "EndOfInput"
  | invalidValue => "InvalidValue"
  | invalidType => "InvalidType"
  | undecodable => "Undecodable"
  | exhausted => "Exhausted"
  | unknownKey => "UnknownKey"
  | withheld => "Withheld"
  | overflow => "Overflow"
  | outOfMemory => "OutOfMemory"
  | tooDeep => "TooDeep"
  | notAFile => "NotAFile"
  | unencodable => "Unencodable"
  | unserializable => "Unserializable"

end Fault.Kind

def Fault.isMachine (f : Fault) : Bool :=
  f.kind.isMachine

end Brainfuck
