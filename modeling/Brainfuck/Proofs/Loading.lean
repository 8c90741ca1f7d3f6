import Brainfuck.Program.Loading
import Brainfuck.Proofs.Utf8

/-! Loading. A file that holds the bytes of a text holds the program of this text, and a file with any other bytes holds
none. -/
namespace Brainfuck

def Text.unified (t : String) : String :=
  String.ofList (unifyLineEnds t.toList)

/-- No instruction comes from a line end or is lost at one. -/
theorem Text.filterMap_unifyLineEnds (cs : List Char) :
    (unifyLineEnds cs).filterMap Instruction.ofChar? = cs.filterMap Instruction.ofChar? := by
  fun_induction unifyLineEnds cs with
  | case1 => rfl
  | case2 cs ih => exact ih
  | case3 cs _ ih => exact ih
  | case4 c cs _ _ ih => rw [List.filterMap_cons, List.filterMap_cons, ih]

namespace Program
open Text (unified)
open Text.Utf8 (Malformed Spells continues decode decode_eq_ok_iff decode_error_iff)

variable {files : Files} {path : String} {content : List UInt8}

/-- A program is checked by its instructions alone. -/
theorem validate_congr {p p' : Program} (h : p.code = p'.code) : p.validate = p'.validate := by
  rw [validate, validate, h]

theorem ofSource_unified_code (t : String) : (ofSource (unified t)).code = (ofSource t).code := by
  rw [ofSource, ofSource, unified, String.toList_ofList, Text.filterMap_unifyLineEnds]

theorem load_of_nul_notMem (hpath : '\x00' ∉ path.toList) (hfile : files (Path.ofString path) = .ok content) :
    load files path =
      match decode content with
      | .ok t => .ok (ofSource (unified t), .loaded (Path.ofString path) (unified t).length)
      | .error d => .error (.unreadable path (.malformed d)) := by
  have hcontains : path.toList.contains '\x00' = false := by simpa using hpath
  simp only [load, hcontains, Files.readText, hfile, bind, Except.bind]
  cases decode content with
  | error d => rfl
  | ok t => rfl

/-- The program in a file. If its bytes are those of a text it is the program of this text, with the same instructions,
size and check, and its source is the text with unified line ends. If they are those of no text, which is so exactly if
something malformed comes behind those of one, the source is unavailable. -/
theorem load_utf8 (hpath : '\x00' ∉ path.toList) (hfile : files (Path.ofString path) = .ok content) :
    (∀ t : String, content = t.toUTF8.data.toList →
      ∃ p, load files path = .ok (p, .loaded (Path.ofString path) p.source.length) ∧
        p.source = unified t ∧ p.code = (ofSource t).code ∧ p.size = (ofSource t).size ∧
          p.validate = (ofSource t).validate) ∧
      ((∀ t : String, content ≠ t.toUTF8.data.toList) →
        ∃ f, load files path = .error f ∧ f.kind = .sourceUnavailable) ∧
      ((∀ t : String, content ≠ t.toUTF8.data.toList) ↔
        ∃ (t : String) (rest : List UInt8), content = t.toUTF8.data.toList ++ rest ∧ Malformed rest) := by
  have hload := load_of_nul_notMem hpath hfile
  have hunread : (∀ t : String, content ≠ t.toUTF8.data.toList) ↔ ∃ d, decode content = .error d := by
    cases hdecode : decode content with
    | error d =>
      refine iff_of_true ?_ ⟨d, rfl⟩
      intro t ht
      cases hdecode.symm.trans (decode_eq_ok_iff.mpr ht)
    | ok t => exact iff_of_false (fun h => h t (decode_eq_ok_iff.mp hdecode)) nofun
  refine ⟨?_, ?_, hunread.trans decode_error_iff⟩
  · intro t ht
    rw [decode_eq_ok_iff.mpr ht] at hload
    have hcode := ofSource_unified_code t
    exact ⟨ofSource (unified t), hload, rfl, hcode, congrArg Array.size hcode, validate_congr hcode⟩
  · intro hcontent
    obtain ⟨d, hd⟩ := hunread.mp hcontent
    rw [hd] at hload
    exact ⟨_, hload, rfl⟩

/-- A file with line ends of three kinds and characters of four lengths is read, and one with half of a surrogate pair
behind its program is not. -/
theorem load_utf8_and_not :
    let files (content : List UInt8) : Files := fun _ => .ok content
    let text := [0x2b, 0x0d, 0x0a, 0xc3, 0xa9, 0x0d, 0xe2, 0x82, 0xac, 0x0a, 0xf0, 0x9f, 0x98, 0x80, 0x2e]
    '\x00' ∉ "a.bf".toList ∧ text = "+\r\n\xe9\r\u20ac\n😀.".toUTF8.data.toList ∧
      (∃ p, load (files text) "a.bf" = .ok (p, .loaded (Path.ofString "a.bf") p.source.length) ∧
        p.source = "+\n\xe9\n\u20ac\n😀." ∧ p.code = #[.increment, .write]) ∧
      Malformed [0xed, 0xa0, 0x80, 0x2e] ∧
      ∃ f, load (files [0x2b, 0xed, 0xa0, 0x80, 0x2e]) "a.bf" = .error f ∧ f.kind = .sourceUnavailable := by
  intro files text
  have hpath : '\x00' ∉ "a.bf".toList := by decide
  have htext : text = "+\r\n\xe9\r\u20ac\n😀.".toUTF8.data.toList := by decide +kernel
  have hsurrogate : Spells 0xed [0xa0, 0x80] 0xd800 := ⟨⟨_, rfl, rfl⟩, by simp [continues]⟩
  have hmalformed : Malformed [0xed, 0xa0, 0x80, 0x2e] := .surrogate hsurrogate (by decide) [0x2e]
  have hfile : ∀ content, files content (Path.ofString "a.bf") = .ok content := fun _ => rfl
  obtain ⟨hread, -⟩ := load_utf8 hpath (hfile text)
  obtain ⟨p, hp, hsource, hcode, -⟩ := hread _ htext
  obtain ⟨-, hunread, hiff⟩ := load_utf8 hpath (hfile [0x2b, 0xed, 0xa0, 0x80, 0x2e])
  refine ⟨hpath, htext, ⟨p, hp, hsource.trans ?_, hcode.trans ?_⟩, hmalformed, hunread (hiff.mpr ?_)⟩
  · decide +kernel
  · decide +kernel
  · exact ⟨"+", _, by decide +kernel, hmalformed⟩

end Program

end Brainfuck
