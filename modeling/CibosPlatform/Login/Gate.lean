/- source: kernel-image/apps/login-rs/src/main.rs, login/src/lib.rs, cibos-app/src/console_backend.rs
   digest: The login application, and when an existing profile is only entered with its password. -/

import CibosPlatform.App.Terminal
import CibosPlatform.Login.Accounts

namespace CibosPlatform.Login.Gate

open App.Terminal Core LittleEndian Maps Utf8 Accounts Shared.Credential Shared.Hash
open Shared Ipc Signature List World

inductive LoginResult where
  | granted (session : Session)
  | denied
  | aborted

def maxAttempts : Nat := 3

def profileBoundary : BoundaryId := 1

def credPath (name : String) : List Byte := toBytes ("/etc/passwd.d/" ++ name)

def ensureDirs (w : World) : World := w.mkdir.mkdir

def loadRecord (name : String) (w : World) : Option CredentialRecord × World :=
  match w.readInto (credPath name) credentialRecordLen with
  | (.error _, w) => (none, w)
  | (.ok bytes, w) => (CredentialRecord.fromBytes bytes, w)

/-- The keyboard is always there, so the line is never missing. -/
def readSecret (w : World) : Option String × World :=
  let (line, w) := readLine true w
  (some line, w)

def askNewPassword (name : String) (w : World) : String × String × World :=
  let w := w.println ("creating new profile '" ++ name ++ "'")
  let w := w.print "new password: "
  let (pw1, w) := readLine true w
  let w := w.print "confirm password: "
  let (pw2, w) := readLine true w
  (pw1, pw2, w)

section

variable (sha256 : Sha256) (keyDeviceVerifier : Option Verifier)

def storeNewProfile (name pw : String) (salt : Salt) (w : World) : Bool × World :=
  let acc := enrollPassword sha256 .empty name profileBoundary salt (toBytes pw)
  match passwordRecordFor acc profileBoundary with
  | none => (false, w.println "internal error: no record for new profile")
  | some record =>
    match w.write (credPath name) record.toBytes with
    | (.ok _, w) => (true, w.println ("profile '" ++ name ++ "' created"))
    | (.error _, w) => (false, w.println "could not write credentials")

def createUser (name : String) (w : World) : Bool × World :=
  let (pw1, pw2, w) := askNewPassword name w
  if pw1 ≠ pw2 then (false, w.println "passwords do not match")
  else if pw1 = "" then (false, w.println "password must not be empty")
  else
    match w.random with
    | .error _ => (false, w.println "no entropy source available")
    | .ok salt => storeNewProfile sha256 name pw1 salt w

def deniedMessage (remaining : Nat) : String :=
  if 0 < remaining then "access denied (" ++ toString remaining ++ " attempt(s) left)"
  else "access denied"

def passwordTries (accounts : Registry) (boundary : BoundaryId) : Nat → World → LoginResult × World
  | 0, w => (.denied, w)
  | remaining + 1, w =>
    let w := w.println "password:"
    match readSecret w with
    | (none, w) => (.aborted, w)
    | (some password, w) =>
      match openSession sha256 keyDeviceVerifier accounts boundary
          (.password (toBytes (trimEnd password))) with
      | some session => (.granted session, w.println ("welcome, " ++ session.profile))
      | none => passwordTries accounts boundary remaining (w.println (deniedMessage remaining))

def runLoginFor (accounts : Registry) (boundary : BoundaryId) (attempts : Nat) (w : World) :
    LoginResult × World :=
  if methodFor accounts boundary = some .physicalKeyDevice then
    (.denied, w.println "this profile requires a physical key device")
  else passwordTries sha256 keyDeviceVerifier accounts boundary attempts w

def exitCode : LoginResult → Nat
  | .granted _ => 0
  | .denied => 1
  | .aborted => 2

def enterProfile (name : String) (w : World) : Nat × World :=
  match loadRecord name w with
  | (none, w) =>
    let (created, w) := createUser sha256 name w
    (if created then 0 else 1, w)
  | (some record, w) =>
    let acc := enrollPasswordRecord .empty name profileBoundary record
    let (result, w) := runLoginFor sha256 keyDeviceVerifier acc profileBoundary maxAttempts w
    (exitCode result, w)

def main (w : World) : Nat × World :=
  let w := ensureDirs w
  let w := w.print "profile: "
  let (nameRaw, w) := readLine false w
  let name := trim nameRaw
  if name = "" then (1, w.println "no profile given")
  else enterProfile sha256 keyDeviceVerifier name w

/-- The application returns 0 only after a typed password, without the blanks at its end, verified
against the stored record, and does not write to the file. -/
def PasswordGate (w : World) (name : String) (stored : List Byte) : Prop :=
  ((main sha256 keyDeviceVerifier w).1 = 0 → ∃ record, CredentialRecord.fromBytes stored = some record ∧
    ∃ n < maxAttempts, record.verify sha256 (toBytes (trimEnd (nthLine w.keys (n + 1)))) = true) ∧
  credPath name ∉ (main sha256 keyDeviceVerifier w).2.written

end

def RecordReadable (w : World) (stored : List Byte) : Prop :=
  w.faults (w.calls + 2) = none ∧ (CredentialRecord.fromBytes stored).isSome

/-- The two lines after the name are the same and not empty, and there is randomness. -/
def DialogCompletes (w : World) : Prop :=
  nthLine w.keys 1 = nthLine w.keys 2 ∧ nthLine w.keys 1 ≠ "" ∧ ∃ salt, w.random = .ok salt

section

variable (sha256 : Sha256) (keyDeviceVerifier : Option Verifier) (w : World) (name : String)
  {stored : List Byte}

theorem loadRecord_eq (present : w.files (credPath name) = some stored) :
    loadRecord name w = (if w.faults w.calls = none then CredentialRecord.fromBytes stored else none,
      w.counted) := by
  unfold loadRecord readInto fsCall
  cases hfault : w.faults w.calls with
  | some e => simp
  | none =>
    have hpresent : w.counted.files (credPath name) = some stored := present
    simp [hpresent, CredentialRecord.fromBytes_take]

theorem askNewPassword_spec :
    ∃ w', askNewPassword name w = (nthLine w.keys 0, nthLine w.keys 1, w') ∧ OnlyTerminal w w' := by
  refine ⟨(askNewPassword name w).2.2, ?_, ?_⟩
  · have hfirst : (askNewPassword name w).1 = nthLine w.keys 0 := readLine_fst true _
    have hsecond : (askNewPassword name w).2.1 = nthLine w.keys 1 := by
      refine (readLine_fst true _).trans ?_
      exact congrArg typedLine (readLine_keys true _)
    rw [← hfirst, ← hsecond]
  · exact ((OnlyTerminal.println w _).trans (.print _ _)).trans <|
      ((OnlyTerminal.readLine true _).trans (.print _ _)).trans (.readLine true _)

theorem storeNewProfile_spec (pw : String) (salt : Salt) :
    ((storeNewProfile sha256 name pw salt w).1 = true ↔ w.faults w.calls = none) ∧
      (storeNewProfile sha256 name pw salt w).2.written = w.written ++ [credPath name] := by
  simp only [storeNewProfile, passwordRecordFor_enrollPassword]
  unfold write fsCall
  cases hfault : w.faults w.calls with
  | some e | none => simp [setFile, println, print, counted]

def Enrolls (w : World) : Prop :=
  nthLine w.keys 0 = nthLine w.keys 1 ∧ nthLine w.keys 0 ≠ "" ∧ ∃ salt, w.random = .ok salt

theorem createUser_spec :
    ((createUser sha256 name w).1 = true ↔ Enrolls w ∧ w.faults w.calls = none) ∧
      (Enrolls w → (createUser sha256 name w).2.written = w.written ++ [credPath name]) ∧
      (¬ Enrolls w → (createUser sha256 name w).2.written = w.written) := by
  obtain ⟨w', hask, hsame⟩ := askNewPassword_spec w name
  unfold createUser Enrolls
  simp only [hask]
  by_cases hequal : nthLine w.keys 0 = nthLine w.keys 1
  · rw [if_neg (not_not.mpr hequal)]
    by_cases hempty : nthLine w.keys 0 = ""
    · rw [if_pos hempty]
      simp [hempty, println, print, hsame.written]
    · rw [if_neg hempty]
      cases hrandom : w'.random with
      | error e =>
        rw [hsame.random] at hrandom
        simp [hrandom, println, print, hsame.written]
      | ok salt =>
        obtain ⟨hstored, hwritten⟩ := storeNewProfile_spec sha256 w' name (nthLine w.keys 0) salt
        rw [hsame.random] at hrandom
        rw [hsame.faults, hsame.calls] at hstored
        rw [hsame.written] at hwritten
        have henrolls : nthLine w.keys 0 = nthLine w.keys 1 ∧ nthLine w.keys 0 ≠ "" ∧
            ∃ salt, w.random = .ok salt := ⟨hequal, hempty, salt, hrandom⟩
        refine ⟨?_, fun _ => hwritten, fun h => absurd henrolls h⟩
        rw [hstored]
        exact ⟨fun hfault => ⟨henrolls, hfault⟩, And.right⟩
  · rw [if_pos hequal]
    simp [hequal, println, print, hsame.written]

theorem createUser_files (created : (createUser sha256 name w).1 = true) {salt : Salt} (random : w.random = .ok salt) :
    (createUser sha256 name w).2.files (credPath name) =
      some (CredentialRecord.toBytes ⟨salt, hashPassword sha256 salt (toBytes (nthLine w.keys 0))⟩) := by
  obtain ⟨⟨hequal, hnonempty, -⟩, hfault⟩ := (createUser_spec sha256 w name).1.mp created
  obtain ⟨w', hask, hsame⟩ := askNewPassword_spec w name
  rw [← hsame.faults, ← hsame.calls] at hfault
  unfold createUser
  simp only [hask]
  rw [if_neg (not_not.mpr hequal), if_neg hnonempty, hsame.random, random]
  simp only [storeNewProfile, passwordRecordFor_enrollPassword]
  unfold write fsCall
  simp [hfault, setFile, println, print]

variable (record : CredentialRecord)

theorem passwordTries_succ (remaining : Nat) :
    ∃ w', OnlyTerminal w w' ∧ w'.keys = keysAfterLine w.keys ∧
      passwordTries sha256 keyDeviceVerifier (enrollPasswordRecord .empty name profileBoundary record)
        profileBoundary (remaining + 1) w =
      if record.verify sha256 (toBytes (trimEnd (typedLine w.keys))) then
        (.granted ⟨profileBoundary, name⟩, w')
      else passwordTries sha256 keyDeviceVerifier
        (enrollPasswordRecord .empty name profileBoundary record) profileBoundary remaining w' := by
  have hkeys : (readLine true (w.println "password:")).2.keys = keysAfterLine w.keys :=
    readLine_keys true _
  have hline : (readLine true (w.println "password:")).1 = typedLine w.keys := readLine_fst true _
  have hread : OnlyTerminal w (readLine true (w.println "password:")).2 :=
    (OnlyTerminal.println w _).trans (.readLine true _)
  by_cases hverify : record.verify sha256 (toBytes (trimEnd (typedLine w.keys)))
  · refine ⟨_, hread.trans (.println _ ("welcome, " ++ name)), hkeys, ?_⟩
    rw [if_pos hverify, passwordTries]
    simp only [readSecret, hline, openSession_enrollPasswordRecord, if_pos hverify]
  · refine ⟨_, hread.trans (.println _ (deniedMessage remaining)), hkeys, ?_⟩
    rw [if_neg hverify, passwordTries]
    simp only [readSecret, hline, openSession_enrollPasswordRecord, if_neg hverify]

theorem passwordTries_spec (attempts : Nat) : (exitCode (passwordTries sha256 keyDeviceVerifier
        (enrollPasswordRecord .empty name profileBoundary record) profileBoundary attempts w).1 = 0 ↔
      ∃ n < attempts, record.verify sha256 (toBytes (trimEnd (nthLine w.keys n))) = true) ∧
    (passwordTries sha256 keyDeviceVerifier (enrollPasswordRecord .empty name profileBoundary record)
      profileBoundary attempts w).2.written = w.written := by
  induction attempts generalizing w with
  | zero => exact ⟨⟨fun h => absurd h (by simp [passwordTries, exitCode]), by simp⟩, rfl⟩
  | succ attempts ih =>
    obtain ⟨w', hsame, hkeys, hstep⟩ := passwordTries_succ sha256 keyDeviceVerifier w name
      record attempts
    rw [hstep]
    by_cases hverify : record.verify sha256 (toBytes (trimEnd (typedLine w.keys)))
    · rw [if_pos hverify]
      exact ⟨⟨fun _ => ⟨0, Nat.succ_pos _, hverify⟩, fun _ => rfl⟩, hsame.written⟩
    · rw [if_neg hverify]
      obtain ⟨hgranted, hwritten⟩ := ih (w := w')
      refine ⟨hgranted.trans ?_, hwritten.trans hsame.written⟩
      rw [hkeys]
      constructor
      · rintro ⟨n, hn, hverified⟩
        exact ⟨n + 1, Nat.succ_lt_succ hn, hverified⟩
      · rintro ⟨_ | n, hn, hverified⟩
        · exact absurd hverified hverify
        · exact ⟨n, Nat.lt_of_succ_lt_succ hn, hverified⟩

theorem main_eq (typed : name = trim (nthLine w.keys 0)) (named : name ≠ "") :
    ∃ w', main sha256 keyDeviceVerifier w = enterProfile sha256 keyDeviceVerifier name w' ∧
      OnlyTerminal w.counted.counted w' ∧ w'.keys = keysAfterLine w.keys := by
  have hline : (readLine false ((ensureDirs w).print "profile: ")).1 = nthLine w.keys 0 :=
    readLine_fst false _
  refine ⟨(readLine false ((ensureDirs w).print "profile: ")).2, ?_, ?_, readLine_keys false _⟩
  · rw [main]
    simp only [hline, ← typed, if_neg named]
  · exact (OnlyTerminal.print (ensureDirs w) _).trans (.readLine false _)

end

section

variable (sha256 : Sha256) (keyDeviceVerifier : Option Verifier) {w : World} {name : String}
  {stored : List Byte}

variable (typed : name = trim (nthLine w.keys 0)) (named : name ≠ "")
  (present : w.files (credPath name) = some stored)

include typed named present

theorem main_readable {record : CredentialRecord} (read : w.faults (w.calls + 2) = none)
    (decoded : CredentialRecord.fromBytes stored = some record) :
    ((main sha256 keyDeviceVerifier w).1 = 0 ↔
      ∃ n < maxAttempts, record.verify sha256 (toBytes (trimEnd (nthLine w.keys (n + 1)))) = true) ∧
      (main sha256 keyDeviceVerifier w).2.written = w.written := by
  obtain ⟨w', hmain, hsame, hkeys⟩ := main_eq sha256 keyDeviceVerifier w name typed named
  have hpresent : w'.files (credPath name) = some stored := by rw [hsame.files]; exact present
  have hfault : w'.faults w'.calls = none := by rw [hsame.faults, hsame.calls]; exact read
  have hload := loadRecord_eq w' name hpresent
  rw [if_pos hfault, decoded] at hload
  obtain ⟨hgranted, hwritten⟩ := passwordTries_spec sha256 keyDeviceVerifier
    w'.counted name record maxAttempts
  have hkeys' : w'.counted.keys = keysAfterLine w.keys := hkeys
  have hwritten' : w'.counted.written = w.written := hsame.written
  rw [hmain, enterProfile, hload]
  simp only [runLoginFor, methodFor_enrollPasswordRecord]
  rw [if_neg (by decide), hwritten, hgranted, hkeys', hwritten']
  exact ⟨Iff.rfl, rfl⟩

theorem gate_of_readable (unwritten : credPath name ∉ w.written) (readable : RecordReadable w stored) :
    PasswordGate sha256 keyDeviceVerifier w name stored := by
  obtain ⟨record, hrecord⟩ := Option.isSome_iff_exists.mp readable.2
  obtain ⟨hgranted, hwritten⟩ :=
    main_readable sha256 keyDeviceVerifier typed named present readable.1 hrecord
  refine ⟨fun hzero => ⟨record, hrecord, hgranted.mp hzero⟩, ?_⟩
  rw [hwritten]
  exact unwritten

theorem main_unreadable (unreadable : ¬ RecordReadable w stored) :
    ((main sha256 keyDeviceVerifier w).1 = 0 ↔ DialogCompletes w ∧ w.faults (w.calls + 3) = none) ∧
    (DialogCompletes w → (main sha256 keyDeviceVerifier w).2.written = w.written ++ [credPath name]) ∧
    (¬ DialogCompletes w → (main sha256 keyDeviceVerifier w).2.written = w.written) := by
  obtain ⟨w', hmain, hsame, hkeys⟩ := main_eq sha256 keyDeviceVerifier w name typed named
  have hpresent : w'.files (credPath name) = some stored := by rw [hsame.files]; exact present
  have hload := loadRecord_eq w' name hpresent
  have hnone : (if w'.faults w'.calls = none then CredentialRecord.fromBytes stored else none) = none := by
    split
    · rename_i hfault
      rw [hsame.faults, hsame.calls] at hfault
      by_contra hsome
      exact unreadable ⟨hfault, Option.isSome_iff_ne_none.mpr hsome⟩
    · rfl
  rw [hnone] at hload
  obtain ⟨hcreated, hwritten, hkept⟩ := createUser_spec sha256 w'.counted name
  have henrolls : Enrolls w'.counted ↔ DialogCompletes w := by
    have hlines : w'.counted.keys = keysAfterLine w.keys := hkeys
    have hrandom : w'.counted.random = w.random := hsame.random
    rw [Enrolls, hlines, hrandom]
    rfl
  have hfaults : w'.counted.faults w'.counted.calls = w.faults (w.calls + 3) := by
    change w'.faults (w'.calls + 1) = _
    rw [hsame.faults, hsame.calls]
    rfl
  have hsame' : w'.counted.written = w.written := hsame.written
  rw [henrolls, hfaults] at hcreated
  rw [henrolls, hsame'] at hwritten hkept
  rw [hmain, enterProfile, hload, ← hcreated]
  refine ⟨?_, hwritten, hkept⟩
  simp

theorem gate_iff_of_unreadable (unwritten : credPath name ∉ w.written)
    (unreadable : ¬ RecordReadable w stored) :
    PasswordGate sha256 keyDeviceVerifier w name stored ↔ ¬ DialogCompletes w := by
  obtain ⟨hzero, hwritten, hkept⟩ :=
    main_unreadable sha256 keyDeviceVerifier typed named present unreadable
  constructor
  · intro hgate hcompletes
    apply hgate.2
    rw [hwritten hcompletes]
    exact mem_append_right _ (mem_singleton_self _)
  · intro hdialog
    refine ⟨fun h => absurd (hzero.mp h).1 hdialog, ?_⟩
    rw [hkept hdialog]
    exact unwritten

end

/-- An existing profile is entered only with its password and its record is not written exactly when
the record can be read and decoded, or the dialog for a new profile does not get to the write. -/
theorem password_gate_iff {sha256 : Sha256} {keyDeviceVerifier : Option Verifier} {w : World}
    {name : String} {stored : List Byte} (typed : name = trim (nthLine w.keys 0)) (named : name ≠ "")
    (present : w.files (credPath name) = some stored) (unwritten : credPath name ∉ w.written) :
    PasswordGate sha256 keyDeviceVerifier w name stored ↔
      RecordReadable w stored ∨ ¬ DialogCompletes w := by
  by_cases hreadable : RecordReadable w stored
  · exact ⟨fun _ => .inl hreadable, fun _ =>
      gate_of_readable sha256 keyDeviceVerifier typed named present unwritten hreadable⟩
  · rw [or_iff_right hreadable]
    exact gate_iff_of_unreadable sha256 keyDeviceVerifier typed named present unwritten hreadable

/-- A created profile is entered with the line it was created with exactly if the line hashes the
same without its trailing blanks, or a later line verifies. -/
theorem created_profile_granted_iff {sha256 : Sha256} {keyDeviceVerifier : Option Verifier} {before later : World}
    {name : String} {salt : Salt} (created : (createUser sha256 name before).1 = true)
    (random : before.random = .ok salt)
    (kept : later.files (credPath name) = (createUser sha256 name before).2.files (credPath name))
    (typed : name = trim (nthLine later.keys 0)) (named : name ≠ "") (read : later.faults (later.calls + 2) = none)
    (same : nthLine later.keys 1 = nthLine before.keys 0) :
    (main sha256 keyDeviceVerifier later).1 = 0 ↔
      hashPassword sha256 salt (toBytes (nthLine before.keys 0)) =
          hashPassword sha256 salt (toBytes (trimEnd (nthLine before.keys 0))) ∨
        ∃ n < 2, hashPassword sha256 salt (toBytes (nthLine before.keys 0)) =
          hashPassword sha256 salt (toBytes (trimEnd (nthLine later.keys (n + 2)))) := by
  rw [createUser_files sha256 before name created random] at kept
  rw [(main_readable sha256 keyDeviceVerifier typed named kept read (CredentialRecord.fromBytes_toBytes _)).1]
  simp only [CredentialRecord.verify, verifyPassword, digestsEqualCt_iff]
  constructor
  · rintro ⟨_ | n, hn, hverified⟩
    · rw [same] at hverified
      exact .inl hverified
    · exact .inr ⟨n, Nat.lt_of_succ_lt_succ hn, hverified⟩
  · rintro (hverified | ⟨n, hn, hverified⟩)
    · exact ⟨0, by decide, same ▸ hverified⟩
    · exact ⟨n + 1, Nat.succ_lt_succ hn, hverified⟩

def lineKeys (text : String) : Keys := text.toList.map (fun c => some (.char c)) ++ [some .enter]

def plainHash : Sha256 := fun bytes => digestOf (bytes.drop saltLen)

variable (fault : Option Shared.Error.SyscallError)

def oneProfile (stored : List Byte) (keys : Keys) : World :=
  ⟨fun p => if p = credPath "op" then some stored else none, fun n => if n = 2 then fault else none,
    fun _ => none, 0, [], keys, .ok (Vector.replicate 32 5), []⟩

theorem oneProfile_present (stored : List Byte)
    (keys : Keys) : (oneProfile fault stored keys).files (credPath "op") = some stored := by
  change (if credPath "op" = credPath "op" then some stored else none) = some stored
  rw [if_pos rfl]

def storedRecord : List Byte :=
  CredentialRecord.toBytes ⟨Vector.replicate 32 9, plainHash (List.replicate 32 9 ++ toBytes "pw")⟩

theorem password_gate_read :
    PasswordGate plainHash none (oneProfile none storedRecord (lineKeys " op" ++ lineKeys "pw"))
      "op" storedRecord := by
  have hreadable : RecordReadable (oneProfile none storedRecord (lineKeys " op" ++ lineKeys "pw"))
      storedRecord := ⟨rfl, by decide +kernel⟩
  exact (password_gate_iff (by decide +kernel) (by decide) (oneProfile_present ..)
    not_mem_nil).mpr (.inl hreadable)

/-- The read fails once: whoever types a new password twice is let in, and the record is replaced. -/
theorem profile_taken_over : (main plainHash none (oneProfile (some .ioError) storedRecord
      (lineKeys "op" ++ lineKeys "mine" ++ lineKeys "mine"))).1 = 0 ∧
    ¬ PasswordGate plainHash none (oneProfile (some .ioError) storedRecord
      (lineKeys "op" ++ lineKeys "mine" ++ lineKeys "mine")) "op" storedRecord := by
  have hunreadable : ¬ RecordReadable (oneProfile (some .ioError) storedRecord
      (lineKeys "op" ++ lineKeys "mine" ++ lineKeys "mine")) storedRecord := by
    intro h
    cases h.1
  have hcompletes : DialogCompletes (oneProfile (some .ioError) storedRecord
      (lineKeys "op" ++ lineKeys "mine" ++ lineKeys "mine")) :=
    ⟨by decide +kernel, by decide +kernel, _, rfl⟩
  have htyped : "op" = trim (nthLine (oneProfile (some .ioError) storedRecord
      (lineKeys "op" ++ lineKeys "mine" ++ lineKeys "mine")).keys 0) := by decide +kernel
  refine ⟨(main_unreadable plainHash none htyped (by decide) (oneProfile_present ..)
    hunreadable).1.mpr ⟨hcompletes, rfl⟩, fun hgate => ?_⟩
  exact (gate_iff_of_unreadable plainHash none htyped (by decide) (oneProfile_present ..) not_mem_nil
    hunreadable).mp hgate hcompletes

def laterRun (password : String) (keys : Keys) : World :=
  { (createUser plainHash "op" (oneProfile none [] (lineKeys password ++ lineKeys password))).2 with
    calls := 0, keys := keys }

theorem created_profile_granted_plain :
    (main plainHash none (laterRun "pw" (lineKeys "op" ++ lineKeys "pw"))).1 = 0 := by
  have hcreated : (createUser plainHash "op" (oneProfile none [] (lineKeys "pw" ++ lineKeys "pw"))).1 := by
    decide +kernel
  have hkept : (laterRun "pw" (lineKeys "op" ++ lineKeys "pw")).files (credPath "op") = _ := rfl
  exact (created_profile_granted_iff hcreated rfl hkept (by decide +kernel) (by decide) rfl (by decide +kernel)).mpr
    (.inl (by decide +kernel))

/-- A password with a blank at its end is never accepted again. -/
theorem created_profile_locked_out :
    (createUser plainHash "op" (oneProfile none [] (lineKeys "pw " ++ lineKeys "pw "))).1 = true ∧
      (main plainHash none
        (laterRun "pw " (lineKeys "op" ++ lineKeys "pw " ++ lineKeys "pw " ++ lineKeys "pw "))).1 = 1 := by
  decide +kernel

end CibosPlatform.Login.Gate
