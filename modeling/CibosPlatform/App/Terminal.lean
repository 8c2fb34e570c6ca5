/- source: cibos-app/src/fs.rs, cibos-app/src/input.rs, cibos-app/src/rand.rs, cibos-app/src/console.rs
   digest: What an application sees of the filesystem, the keyboard and the screen. -/

import CibosPlatform.Core.Utf8
import CibosPlatform.Shared.Crypto

/-! Any filesystem call may fail; which ones do is part of the world, and so is what a write that fails
leaves in its file. -/

namespace CibosPlatform.App.Terminal

open Core LittleEndian Utf8 Shared Credential Error

inductive KeyCode where
  | char (c : Char)
  | enter
  | backspace
  | delete
  | tab
  | escape
  | left
  | right
  | up
  | down
  | home
  | endKey

/-- What `read_key` returns, one call after the other: `none` when no key came. -/
abbrev Keys := List (Option KeyCode)

structure World where
  files : List Byte → Option (List Byte)
  /-- The error with which the filesystem call of a given number fails, if it does. -/
  faults : Nat → Option SyscallError
  /-- What a write of a given number leaves in its file if it fails: some of its blocks may be written. -/
  torn : Nat → Option (List Byte)
  calls : Nat
  /-- The files that a write was made to, whether it failed or not. -/
  written : List (List Byte)
  keys : Keys
  random : Except SyscallError Salt
  screen : List Byte

namespace World

variable (w : World)

def print (text : String) : World := { w with screen := w.screen ++ toBytes text }

def println (text : String) : World := (w.print text).print "\n"

def counted : World := { w with calls := w.calls + 1 }

def fsCall : Option SyscallError × World := (w.faults w.calls, w.counted)

/-- The directories themselves are not followed: the application ignores the result. -/
def mkdir : World := w.fsCall.2

def readInto (path : List Byte) (bufLen : Nat) : Except SyscallError (List Byte) × World :=
  match w.fsCall with
  | (some e, w) => (.error e, w)
  | (none, w) =>
    match w.files path with
    | none => (.error .notFound, w)
    | some data => (.ok (data.take bufLen), w)

def setFile (path : List Byte) (content : Option (List Byte)) : World :=
  { w with
    files := fun p => if p = path then content else w.files p
    written := w.written ++ [path] }

def write (path data : List Byte) : Except SyscallError Nat × World :=
  match w.fsCall with
  | (some e, w') => (.error e, w'.setFile path (w.torn w.calls))
  | (none, w') => (.ok data.length, w'.setFile path (some data))

end World

def echo (mask : Bool) (c : Char) : List Byte := if mask then toBytes "*" else toBytes (String.ofList [c])

/-- The loop of `read_line`: the line, the keys that are left and what was echoed. It ends at the
Enter key, and where no key comes. -/
def editLine (mask : Bool) (line : List Char) : Keys → List Char × Keys × List Byte
  | [] => (line, [], [])
  | none :: keys => (line, keys, [])
  | some .enter :: keys => (line, keys, toBytes "\n")
  | some .backspace :: keys =>
    if line = [] then editLine mask line keys
    else
      let (typed, rest, shown) := editLine mask line.dropLast keys
      (typed, rest, [8, 32, 8] ++ shown)
  | some (.char c) :: keys =>
    let (typed, rest, shown) := editLine mask (line ++ [c]) keys
    (typed, rest, echo mask c ++ shown)
  | some _ :: keys => editLine mask line keys

def typedLine (keys : Keys) : String := String.ofList (editLine false [] keys).1

def keysAfterLine (keys : Keys) : Keys := (editLine false [] keys).2.1

def nthLine (keys : Keys) : Nat → String
  | 0 => typedLine keys
  | n + 1 => nthLine (keysAfterLine keys) n

def readLine (mask : Bool) (w : World) : String × World :=
  let (line, keys, shown) := editLine mask [] w.keys
  (String.ofList line, { w with keys := keys, screen := w.screen ++ shown })

variable (mask : Bool)

theorem editLine_mask (line : List Char) (keys : Keys) :
    (editLine mask line keys).1 = (editLine false line keys).1 ∧
      (editLine mask line keys).2.1 = (editLine false line keys).2.1 := by
  induction keys generalizing line with
  | nil => exact ⟨rfl, rfl⟩
  | cons key keys ih =>
    cases key with
    | none => exact ⟨rfl, rfl⟩
    | some code =>
      cases code with
      | enter => exact ⟨rfl, rfl⟩
      | char c => exact ih (line ++ [c])
      | backspace =>
        by_cases hline : line = []
        · simp only [editLine, if_pos hline]
          exact ih line
        · simp only [editLine, if_neg hline]
          exact ih line.dropLast
      | _ => exact ih line

structure OnlyTerminal (w w' : World) : Prop where
  files : w'.files = w.files
  faults : w'.faults = w.faults
  torn : w'.torn = w.torn
  calls : w'.calls = w.calls
  written : w'.written = w.written
  random : w'.random = w.random

variable (w : World) (text : String)

namespace OnlyTerminal

theorem print : OnlyTerminal w (w.print text) := ⟨rfl, rfl, rfl, rfl, rfl, rfl⟩

theorem println : OnlyTerminal w (w.println text) := ⟨rfl, rfl, rfl, rfl, rfl, rfl⟩

theorem readLine (mask : Bool) (w : World) : OnlyTerminal w (readLine mask w).2 :=
  ⟨rfl, rfl, rfl, rfl, rfl, rfl⟩

theorem trans {w w' w'' : World} (first : OnlyTerminal w w') (second : OnlyTerminal w' w'') :
    OnlyTerminal w w'' :=
  ⟨second.files.trans first.files, second.faults.trans first.faults, second.torn.trans first.torn,
    second.calls.trans first.calls, second.written.trans first.written, second.random.trans first.random⟩

end OnlyTerminal

theorem readLine_fst : (readLine mask w).1 = typedLine w.keys := by
  rw [readLine, typedLine, ← (editLine_mask mask [] w.keys).1]

theorem readLine_keys : (readLine mask w).2.keys = keysAfterLine w.keys := by
  rw [readLine, keysAfterLine, ← (editLine_mask mask [] w.keys).2]

end CibosPlatform.App.Terminal
