/- source: applications/editor/src/lib.rs
   digest: The editor's lines saved to a file and loaded again. -/

import CibosPlatform.Storage.Volume

namespace CibosPlatform.Applications.Editor

open Core LittleEndian Utf8 Sdk.Filesystem

structure State where
  buffer : List String
  fs : Files
  console : List String

def State.writeLine (s : State) (text : String) : State := { s with console := s.console ++ [text] }

def linesOf (text : String) : List String :=
  if text.isEmpty then [] else (text.toList.splitOn '\n').map String.ofList

def command (line : String) : String × String :=
  let trimmed := line.toList.dropWhile isWhitespace
  (String.ofList (trimmed.takeWhile (!isWhitespace ·)),
    trim (String.ofList (trimmed.dropWhile (!isWhitespace ·))))

def handleStorage (lossy : List Byte → String) (line : String) (s : State) : Bool × State :=
  let (cmd, rest) := command line
  if cmd = "save" then
    if rest.isEmpty then (true, s.writeLine "usage: save <path>")
    else match s.fs.write rest (toBytes ("\n".intercalate s.buffer)) with
      | (true, fs) => (true, { s with fs }.writeLine s!"saved {s.buffer.length} line(s) to {rest}")
      | (false, _) => (true, s.writeLine s!"invalid path: {rest}")
  else if cmd = "load" then
    if rest.isEmpty then (true, s.writeLine "usage: load <path>")
    else match s.fs.read rest with
      | some bytes =>
        let buffer := linesOf ((fromBytes bytes).getD (lossy bytes))
        (true, { s with buffer }.writeLine s!"loaded {buffer.length} line(s) from {rest}")
      | none => (true, s.writeLine s!"not found: {rest}")
  else (false, s)

theorem linesOf_intercalate {buffer : List String} (hlines : ∀ line ∈ buffer, '\n' ∉ line.toList) :
    linesOf ("\n".intercalate buffer) = buffer ↔ buffer ≠ [""] := by
  rcases eq_or_ne buffer [] with rfl | hne
  · simp [linesOf]
  have hsplit : (("\n".intercalate buffer).toList.splitOn '\n').map String.ofList = buffer := by
    rw [String.toList_intercalate, show "\n".toList = ['\n'] from rfl,
      List.splitOn_intercalate '\n' (by simpa using hlines) (by simpa using hne)]
    simp
  rw [linesOf, hsplit]
  split
  case isTrue hempty =>
    rw [String.isEmpty_iff.mp hempty] at hsplit
    simp [← hsplit]
  case isFalse hempty =>
    refine ⟨fun _ hone => hempty ?_, fun _ => rfl⟩
    simp [hone]

theorem command_path {path : String} (hpath : isValidPath path = true) :
    command ("save " ++ path) = ("save", path) ∧ command ("load " ++ path) = ("load", path) := by
  have hkept : ∀ l : List Char, (∀ c ∈ l, c ∈ path.toList) → l.dropWhile isWhitespace = l := by
    intro l hl
    cases l with
    | nil => rfl
    | cons c l => simp_all [isValidPath]
  have htrim : trim (" " ++ path) = path := by
    have hblank : isWhitespace ' ' = true := rfl
    simp [trim, hblank, hkept]
  constructor <;> simp [command, isWhitespace, htrim]

/-- Saving to a valid path and loading from it gives the lines back, but for one empty line. -/
theorem save_load_iff (lossy : List Byte → String) (s : State) (path : String)
    (hpath : isValidPath path = true) (hlines : ∀ line ∈ s.buffer, '\n' ∉ line.toList) :
    (handleStorage lossy ("load " ++ path) (handleStorage lossy ("save " ++ path) s).2).2.buffer =
      s.buffer ↔ s.buffer ≠ [""] := by
  obtain ⟨hsave, hload⟩ := command_path hpath
  have hnamed : path.isEmpty = false := by
    simp [isValidPath] at hpath
    simp [hpath]
  rw [← linesOf_intercalate hlines]
  simp [handleStorage, hsave, hload, hnamed, Files.write, hpath, State.writeLine, Files.read, Maps.SortedMap.get?_insert, fromBytes_toBytes]

theorem save_load_two_lines : (handleStorage (fun _ => "") "load a"
      (handleStorage (fun _ => "") "save a" ⟨["b", ""], .new, []⟩).2).2.buffer = ["b", ""] :=
  (save_load_iff _ ⟨["b", ""], .new, []⟩ "a" (by decide) (by decide)).mpr (by decide)

theorem save_load_empty_line : (handleStorage (fun _ => "") "load a"
      (handleStorage (fun _ => "") "save a" ⟨[""], .new, []⟩).2).2.buffer = [] := by
  decide +kernel

end CibosPlatform.Applications.Editor
