/- source: applications/trove/src/lib.rs, applications/package-manager/src/lib.rs
   digest: What the store leaves in the filesystem when it installs an application. -/

import CibosPlatform.Shared.Crypto
import CibosPlatform.Storage.Volume

namespace CibosPlatform.Applications.Trove

open Core LittleEndian Maps Utf8 Shared.Hash Sdk.Filesystem

structure Package where
  version : String
  declaredHash : Digest256
  contents : List Byte

def Package.verify (sha256 : Sha256) (pkg : Package) : Bool :=
  digestsEqualCt (sha256 pkg.contents) pkg.declaredHash

/-- How a call on the filesystem ends. One that fails may have been cut short: anything can be at its path
afterwards, or nothing. -/
inductive Fate where
  | done
  | failed (left : Option (List Byte))

def Fate.leaves (data : List Byte) : Fate → Option (List Byte)
  | .done => some data
  | .failed left => left

structure ShellFs where
  files : Files
  dirs : List String
  fate : Nat → Fate

namespace ShellFs

variable (fs : ShellFs) (path : String) (data : List Byte)

def pathExists : Bool := (fs.files.read path).isSome || fs.dirs.contains path

def mkdir : ShellFs :=
  ⟨fs.files, if ((fs.fate 0).leaves []).isSome then path :: fs.dirs else fs.dirs, (fs.fate <| · + 1)⟩

def write : ShellFs :=
  ⟨((fs.fate 0).leaves data).elim (fs.files.erase path) (fs.files.insert path), fs.dirs,
    (fs.fate <| · + 1)⟩

end ShellFs

inductive InstallResult where
  | installed
  | alreadyInstalled
  | notInCatalog
  | verificationFailed

variable (sha256 : Sha256) (catalog : SortedMap String Package) (fs : ShellFs) (name : String) (pkg : Package)

def metaKey : String := s!"/apps/{name}/meta"

def binKey : String := s!"/apps/{name}/bin"

def isInstalled : Bool := fs.pathExists (metaKey name)

/-- The four calls of `install`; it ignores what they return. -/
def place : ShellFs :=
  (((fs.mkdir "/apps").mkdir s!"/apps/{name}").write (binKey name) pkg.contents).write
    (metaKey name) (toBytes pkg.version)

def install : InstallResult × ShellFs :=
  match catalog.get? name with
  | none => (.notInCatalog, fs)
  | some pkg =>
    if isInstalled fs name then (.alreadyInstalled, fs)
    else if !pkg.verify sha256 then (.verificationFailed, fs)
    else (.installed, place fs name pkg)

def Truthful : InstallResult × ShellFs → Prop
  | (.installed, fs') => ∃ pkg, catalog.get? name = some pkg ∧
      fs'.files.read (binKey name) = some pkg.contents ∧
      fs'.files.read (metaKey name) = some (toBytes pkg.version) ∧ isInstalled fs' name
  | (_, fs') => fs'.files = fs.files

theorem ShellFs.read_write (path path' : String) (data : List Byte) :
    (fs.write path data).files.read path' =
      if path' = path then (fs.fate 0).leaves data else fs.files.read path' := by
  cases hleft : (fs.fate 0).leaves data with
  | none =>
    rw [write, hleft]
    exact SortedMap.get?_erase ..
  | some left =>
    rw [write, hleft]
    exact SortedMap.get?_insert ..

theorem metaKey_ne_binKey : metaKey name ≠ binKey name := by
  intro h
  have hlength := congrArg String.length h
  simp only [metaKey, binKey, String.length_append] at hlength
  exact absurd (Nat.add_left_cancel hlength) (by decide)

theorem read_place :
    (place fs name pkg).files.read (binKey name) = (fs.fate 2).leaves pkg.contents ∧
      (place fs name pkg).files.read (metaKey name) = (fs.fate 3).leaves (toBytes pkg.version) := by
  constructor
  · rw [place, ShellFs.read_write, if_neg (metaKey_ne_binKey name).symm, ShellFs.read_write, if_pos rfl]
    rfl
  · rw [place, ShellFs.read_write, if_pos rfl]
    rfl

/-- Whether the writes succeeded is never looked at. -/
theorem install_truthful_iff : Truthful catalog fs name (install sha256 catalog fs name) ↔
      ∀ pkg, catalog.get? name = some pkg → isInstalled fs name = false → pkg.verify sha256 = true →
        (fs.fate 2).leaves pkg.contents = some pkg.contents ∧
          (fs.fate 3).leaves (toBytes pkg.version) = some (toBytes pkg.version) := by
  cases hpkg : catalog.get? name with
  | none => simp [install, hpkg, Truthful]
  | some pkg =>
    cases hmeta : isInstalled fs name with
    | true => simp [install, hpkg, hmeta, Truthful]
    | false =>
      cases hhash : pkg.verify sha256 with
      | false => simp [install, hpkg, hmeta, hhash, Truthful]
      | true =>
        obtain ⟨hbin, hversion⟩ := read_place fs name pkg
        have hanswer : install sha256 catalog fs name = (.installed, place fs name pkg) := by
          simp [install, hpkg, hmeta, hhash]
        rw [hanswer]
        constructor
        · rintro ⟨pkg', hpkg', hbin', hversion', -⟩ _ ⟨⟩ - -
          cases hpkg.symm.trans hpkg'
          exact ⟨hbin ▸ hbin', hversion ▸ hversion'⟩
        · intro h
          obtain ⟨hleft, hleft'⟩ := h pkg rfl rfl hhash
          rw [hleft] at hbin
          rw [hleft'] at hversion
          refine ⟨pkg, hpkg, hbin, hversion, ?_⟩
          rw [isInstalled, ShellFs.pathExists, hversion]
          rfl

theorem installed_without_files : ∃ pkg,
    install (fun _ => .replicate 32 0) (SortedMap.empty.insert "a" pkg)
        ⟨.new, [], fun _ => .failed none⟩ "a" =
      (.installed, ⟨.new, [], fun _ => .failed none⟩) :=
  ⟨⟨"1", .replicate 32 0, []⟩, rfl⟩

end CibosPlatform.Applications.Trove
