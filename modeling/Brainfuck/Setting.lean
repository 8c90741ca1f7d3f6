import Brainfuck.Fault

/-! Settings: values that callers choose, or withhold where one is needed. -/
namespace Brainfuck

/-- A setting: a value, or the failure that comes of using it. -/
abbrev Setting (α : Type) := Except Fault α

def Setting.of {α : Type} (value : Option α) : Setting α :=
  value.elim (.error .wrongType) .ok

instance {α : Type} : Coe α (Setting α) :=
  ⟨.ok⟩

end Brainfuck
