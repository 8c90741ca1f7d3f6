import Brainfuck.Json.Basic

/-! What is wrong with the fields of a request. -/
namespace Brainfuck.Api

/-- What is wrong with a field. -/
inductive Defect where
  | missing
  | malformed
  | notAnObject
  | notAnInteger
  | unreadableInteger
  | fractional
  | infinite
  | oversized
  | tooSmall (least : Int)
  | notAText
  | brokenText
  | notATruth
  | unreadableTruth
  | crossedBounds
  deriving DecidableEq, Repr

namespace Defect

def name : Defect → String
  | missing => "missing"
  | malformed => "json_invalid"
  | notAnObject => "model_attributes_type"
  | notAnInteger => "int_type"
  | unreadableInteger => "int_parsing"
  | fractional => "int_from_float"
  | infinite => "finite_number"
  | oversized => "int_parsing_size"
  | tooSmall _ => "greater_than_equal"
  | notAText => "string_type"
  | brokenText => "string_unicode"
  | notATruth => "bool_type"
  | unreadableTruth => "bool_parsing"
  | crossedBounds => "value_error"

def message : Defect → String
  | missing => "Field required"
  | malformed => "JSON decode error"
  | notAnObject => "Input should be a valid dictionary or object to extract fields from"
  | notAnInteger => "Input should be a valid integer"
  | unreadableInteger => "Input should be a valid integer, unable to parse string as an integer"
  | fractional => "Input should be a valid integer, got a number with a fractional part"
  | infinite => "Input should be a finite number"
  | oversized => "Unable to parse input string as an integer, exceeded maximum size"
  | tooSmall least => s!"Input should be greater than or equal to {least}"
  | notAText => "Input should be a valid string"
  | brokenText => "Input should be a valid string, unable to parse raw data as a unicode string"
  | notATruth => "Input should be a valid boolean"
  | unreadableTruth => "Input should be a valid boolean, unable to interpret input"
  | crossedBounds => "Value error, cell_max must not be smaller than cell_min"

/-- The bound that a defect is about, as far as it is reported. -/
def context? : Defect → Option Json
  | tooSmall least => some (.object [("ge", .integer least)])
  | crossedBounds => some (.object [("error", .object [])])
  | _ => none

end Defect

/-- A defect, the way to where it is, and what stands there. -/
structure Problem where
  location : List Json
  defect : Defect
  input : Json

namespace Problem

/-- How the names of private members begin. -/
def privateMark : String := "_sa"

def isPrivate (name : Json.Literal) : Bool :=
  (Text.Point.ofString privateMark).isPrefixOf name.points

mutual

/-- A value as it is quoted, which is without private members. -/
def quote : Json → Json
  | .array items => .array (quoteItems items)
  | .object members => .object (quoteMembers members)
  | value => value

def quoteItems : List Json → List Json
  | [] => []
  | x :: rest => quote x :: quoteItems rest

def quoteMembers : Json.Members → Json.Members
  | [] => []
  | (name, x) :: rest =>
    let others := quoteMembers rest
    if isPrivate name then others else (name, quote x) :: others

end

def toJson (p : Problem) : Json :=
  let context : Json.Members := p.defect.context?.toList.map fun c => ("ctx", c)
  let members : Json.Members := [("type", .text p.defect.name), ("loc", .array p.location),
    ("msg", .text p.defect.message), ("input", quote p.input)]
  .object (members ++ context)

end Problem

end Brainfuck.Api
