import Mathlib.Tactic
import Otelop.Startup.Templates

/-!
# Registration at login

`New`, `checkLink` and `Enable` of `internal/startup/startup.go`, with `render` and
`renderLauncherWrapper`.  On macOS a launcher stands between the property list and the
executable.

The operating system is a parameter, `Os`: what a link points to, and which of the calls that
change files succeed.  `enable` gives the files it wrote beside its result, so that a failed
registration shows what it left behind.  The executable may be any path that is absolute and has
no zero byte and no line break; the launcher's path comes from the environment and is not looked
at.

**Results.**
* `enable_linux`, `enable_darwin`: the files that an accepted registration writes.
* `registers_iff`: they name the executable and the launcher if and only if, on macOS, the
  launcher's path is a text that XML can hold.
-/

namespace Otelop
namespace Startup

open Lib FilePath

/-! ### Registrations -/

structure Registration where
  path : Path
  platform : String
  /-- Empty but on macOS. -/
  wrapper : Path
deriving DecidableEq

/-- An error of the operating system. -/
inductive OsError where
  | notExist
  | other (text : String)
deriving DecidableEq

inductive StartupError where
  /-- `startup requires an absolute home directory` -/
  | relativeHome
  /-- `XDG_DATA_HOME must be absolute` -/
  | relativeDataHome
  /-- `XDG_CONFIG_HOME must be absolute` -/
  | relativeConfigHome
  /-- `startup is unsupported on %s (supported: macOS and Linux with systemd)` -/
  | unsupported (platform : String)
  /-- `startup executable must be absolute` -/
  | relativeExecutable
  /-- `startup executable must not contain NUL or newlines` -/
  | controlCharacters
  /-- `startup executable must not be the launcher wrapper` -/
  | launcherItself
  /-- `startup link %s points to another unit: %s` -/
  | foreignLink (link target : Path)
  | os (err : OsError)
deriving DecidableEq

/-- `dataHome`, which has a default under the home directory. -/
def dataDirectory (home dataHome : Path) : Path :=
  if dataHome = [] then join [home, asciiBytes ".local", asciiBytes "share"] else dataHome

/-- `configHome`, which has a default under the home directory. -/
def configDirectory (home configHome : Path) : Path :=
  if configHome = [] then join [home, asciiBytes ".config"] else configHome

/-- Where the launcher is. -/
def launcherPath (home dataHome : Path) : Path :=
  join [dataDirectory home dataHome, asciiBytes "otelop", asciiBytes "startup",
    asciiBytes "otelop"]

/-- `New` -/
def new (platform : String) (home configHome dataHome : Path) :
    Except StartupError Registration :=
  if !isAbs home then .error .relativeHome
  else if platform = "darwin" then
    if !isAbs (dataDirectory home dataHome) then .error .relativeDataHome
    else .ok
      { path := join [home, asciiBytes "Library", asciiBytes "LaunchAgents",
          label ++ asciiBytes ".plist"]
        platform := platform
        wrapper := launcherPath home dataHome }
  else if platform = "linux" then
    if !isAbs (configDirectory home configHome) then .error .relativeConfigHome
    else .ok
      { path := join [configDirectory home configHome, asciiBytes "systemd", asciiBytes "user",
          asciiBytes "otelop-startup.service"]
        platform := platform
        wrapper := [] }
  else .error (.unsupported platform)

/-! ### Enabling -/

/-- The operating system, as far as a registration uses it. -/
structure Os where
  readlink : Path → Except OsError Path
  writeFileAtomic : Path → List UInt8 → Nat → Except OsError Unit
  mkdirAll : Path → Nat → Except OsError Unit
  symlink : Path → Path → Except OsError Unit

/-- A file that was written. -/
structure Written where
  path : Path
  content : List UInt8
  perm : Nat
deriving DecidableEq

namespace Registration

def linkPath (r : Registration) : Path :=
  join [dir r.path, asciiBytes "default.target.wants", base r.path]

def checkLink (r : Registration) (os : Os) : Except StartupError Bool :=
  match os.readlink r.linkPath with
  | .error .notExist => .ok false
  | .error err => .error (.os err)
  | .ok target =>
      let resolved := if isAbs target then target else join [dir r.linkPath, target]
      if clean resolved = clean r.path then .ok true
      else .error (.foreignLink r.linkPath target)

/-- A template is rendered into memory, which does not fail. -/
def render (r : Registration) (table : Char → Bool) (executable : Path) : List UInt8 :=
  if r.platform = "darwin" then launchAgentTemplate executable
  else systemdUnitTemplate table executable

/-- The registration of a program, behind the files written so far. -/
def register (r : Registration) (os : Os) (table : Char → Bool) (linked : Bool)
    (written : List Written) (program : Path) : List Written × Except StartupError Unit :=
  let data := r.render table program
  match os.writeFileAtomic r.path data 0o600 with
  | .error err => (written, .error (.os err))
  | .ok () =>
      let written := written ++ [{ path := r.path, content := data, perm := 0o600 }]
      if r.platform = "linux" ∧ linked = false then
        match os.mkdirAll (dir r.linkPath) 0o700 with
        | .error err => (written, .error (.os err))
        | .ok () =>
            match os.symlink r.path r.linkPath with
            | .error err => (written, .error (.os err))
            | .ok () => (written, .ok ())
      else (written, .ok ())

/-- `Enable`: the files it wrote, and its result. -/
def enable (r : Registration) (os : Os) (table : Char → Bool) (executable : Path) :
    List Written × Except StartupError Unit :=
  if !isAbs executable then ([], .error .relativeExecutable)
  else if executable.any fun b => decide (b ∈ ([0x00, 0x0D, 0x0A] : List UInt8)) then
    ([], .error .controlCharacters)
  else
    match if r.platform = "linux" then r.checkLink os else .ok false with
    | .error err => ([], .error err)
    | .ok linked =>
        if r.wrapper = [] then r.register os table linked [] executable
        else if clean executable = r.wrapper then ([], .error .launcherItself)
        else
          let script := launcherWrapperTemplate executable
          match os.writeFileAtomic r.wrapper script 0o755 with
          | .error err => ([], .error (.os err))
          | .ok () =>
              r.register os table linked
                [{ path := r.wrapper, content := script, perm := 0o755 }] r.wrapper

end Registration

/-! ### What is accepted -/

theorem new_eq_ok
    {platform : String} {home configHome dataHome : Path} {r : Registration}
    (h : new platform home configHome dataHome = .ok r) :
    platform = "darwin" ∧ r.platform = "darwin" ∧ r.wrapper = launcherPath home dataHome ∨
      platform = "linux" ∧ r.platform = "linux" ∧ r.wrapper = [] := by
  rw [new] at h
  split_ifs at h with hhome hdarwin hdata hlinux hconfig
  · cases h
    exact Or.inl ⟨hdarwin, hdarwin, rfl⟩
  · cases h
    exact Or.inr ⟨hlinux, hlinux, rfl⟩

theorem launcherPath_ne_nil (home dataHome : Path) : launcherPath home dataHome ≠ [] := by
  have hname : asciiBytes "otelop" ≠ [] := by decide
  exact join_ne_nil (List.mem_cons_of_mem _ List.mem_cons_self) hname

namespace Registration

section Accepted

variable {r : Registration} {os : Os} {table : Char → Bool} {executable : Path}
variable {written : List Written}

theorem register_eq_ok
    {linked : Bool} {before : List Written} {program : Path}
    (h : r.register os table linked before program = (written, .ok ())) :
    written = before ++ [{ path := r.path, content := r.render table program, perm := 0o600 }] := by
  rw [register] at h
  dsimp only at h
  split at h
  · cases h
  · split_ifs at h with hlink
    · split at h
      · cases h
      · split at h
        · cases h
        · cases h
          rfl
    · cases h
      rfl

theorem enable_eq_ok
    (h : r.enable os table executable = (written, .ok ())) :
    (0x00 ∉ executable ∧ 0x0A ∉ executable) ∧
      ∃ linked, if r.wrapper = [] then
          r.register os table linked [] executable = (written, .ok ())
        else
          r.register os table linked
            [{ path := r.wrapper, content := launcherWrapperTemplate executable, perm := 0o755 }]
            r.wrapper = (written, .ok ()) := by
  rw [enable] at h
  by_cases habs : (!isAbs executable) = true
  · rw [if_pos habs] at h
    cases h
  rw [if_neg habs] at h
  by_cases hcontrol : (executable.any fun b =>
      decide (b ∈ ([0x00, 0x0D, 0x0A] : List UInt8))) = true
  · rw [if_pos hcontrol] at h
    cases h
  rw [if_neg hcontrol] at h
  have hclean : ∀ b ∈ ([0x00, 0x0D, 0x0A] : List UInt8), b ∉ executable := by
    intro b hb hmem
    exact hcontrol (List.any_eq_true.mpr ⟨b, hmem, decide_eq_true hb⟩)
  refine ⟨⟨hclean _ (by decide), hclean _ (by decide)⟩, ?_⟩
  split at h
  · cases h
  · rename_i linked _
    refine ⟨linked, ?_⟩
    split_ifs at h ⊢ with hwrapper hself
    · exact h
    · cases h
    · dsimp only at h
      split at h
      · cases h
      · exact h

end Accepted

theorem enable_linux
    {r : Registration} (hplatform : r.platform = "linux") (hwrapper : r.wrapper = []) {os : Os}
    {table : Char → Bool} {executable : Path} {written : List Written}
    (h : r.enable os table executable = (written, .ok ())) :
    written = [{ path := r.path, content := systemdUnitTemplate table executable, perm := 0o600 }] ∧
      unitProgram (systemdUnitTemplate table executable) = some executable := by
  obtain ⟨⟨hzero, hnewline⟩, linked, hregister⟩ := enable_eq_ok h
  rw [if_pos hwrapper] at hregister
  have hwritten := register_eq_ok hregister
  rw [render, hplatform, if_neg (by decide)] at hwritten
  exact ⟨hwritten, unitProgram_systemdUnitTemplate table hzero hnewline⟩

theorem enable_darwin
    {r : Registration} (hplatform : r.platform = "darwin") (hwrapper : r.wrapper ≠ []) {os : Os}
    {table : Char → Bool} {executable : Path} {written : List Written}
    (h : r.enable os table executable = (written, .ok ())) :
    written =
      [{ path := r.wrapper, content := launcherWrapperTemplate executable, perm := 0o755 },
        { path := r.path, content := launchAgentTemplate r.wrapper, perm := 0o600 }] := by
  obtain ⟨-, linked, hregister⟩ := enable_eq_ok h
  rw [if_neg hwrapper] at hregister
  have hwritten := register_eq_ok hregister
  rw [render, hplatform, if_pos rfl] at hwritten
  exact hwritten

end Registration

/-! ### Exact names -/

/-- The files written name exactly the executable: on Linux the unit does so, on macOS the
launcher's script does so, and the property list names the launcher. -/
def Registers (r : Registration) (executable launcher : Path) (written : List Written) : Prop :=
  if r.platform = "darwin" then
    ∃ script plist : Written, written = [script, plist] ∧
      script.path = launcher ∧ scriptProgram script.content = some executable ∧
      plist.path = r.path ∧ plistProgram plist.content = some launcher
  else
    ∃ unit : Written, written = [unit] ∧
      unit.path = r.path ∧ unitProgram unit.content = some executable

/-- A system on which every step succeeds and no unit is linked. -/
def sampleOs : Os where
  readlink _ := .error .notExist
  writeFileAtomic _ _ _ := .ok ()
  mkdirAll _ _ := .ok ()
  symlink _ _ := .ok ()

/-- A registration on macOS. -/
def sampleRegistration (dataHome : Path) : Registration where
  path := asciiBytes "/Users/u/Library/LaunchAgents/io.github.mashiro.otelop.plist"
  platform := "darwin"
  wrapper := launcherPath (asciiBytes "/Users/u") dataHome

/-- Linux has no condition, as its escapes write every byte. -/
theorem registers_iff
    {platform : String} {home configHome dataHome : Path} {r : Registration}
    (hnew : new platform home configHome dataHome = .ok r) {os : Os} {table : Char → Bool}
    {executable : Path} {written : List Written}
    (henable : r.enable os table executable = (written, .ok ())) :
    Registers r executable (launcherPath home dataHome) written ↔
      (platform = "darwin" → HoldsInXml (launcherPath home dataHome)) := by
  rcases new_eq_ok hnew with ⟨hdarwin, hplatform, hwrapper⟩ | ⟨hlinux, hplatform, hwrapper⟩
  · have hne : r.wrapper ≠ [] := hwrapper ▸ launcherPath_ne_nil home dataHome
    have hwritten := Registration.enable_darwin hplatform hne henable
    rw [hwrapper] at hwritten
    rw [Registers, if_pos hplatform, hwritten]
    constructor
    · rintro ⟨script, plist, hfiles, -, -, -, hplist⟩ -
      cases hfiles
      exact (plistProgram_launchAgentTemplate_iff _).mp hplist
    · intro hxml
      exact ⟨_, _, rfl, rfl, scriptProgram_launcherWrapperTemplate executable, rfl,
        (plistProgram_launchAgentTemplate_iff _).mpr (hxml hdarwin)⟩
  · obtain ⟨hwritten, hunit⟩ := Registration.enable_linux hplatform hwrapper henable
    rw [Registers, hplatform, if_neg (by decide), hwritten]
    refine iff_of_true ⟨_, rfl, rfl, hunit⟩ fun hdarwin => ?_
    rw [hlinux] at hdarwin
    exact absurd hdarwin (by decide)

theorem registers_sample :
    Registers (sampleRegistration (asciiBytes "/data")) (asciiBytes "/opt/My App/otelop")
      (launcherPath (asciiBytes "/Users/u") (asciiBytes "/data"))
      ((sampleRegistration (asciiBytes "/data")).enable sampleOs (fun _ => true)
        (asciiBytes "/opt/My App/otelop")).1 := by
  have hnew : new "darwin" (asciiBytes "/Users/u") [] (asciiBytes "/data") =
      .ok (sampleRegistration (asciiBytes "/data")) := by decide
  have henable : ((sampleRegistration (asciiBytes "/data")).enable sampleOs (fun _ => true)
      (asciiBytes "/opt/My App/otelop")).2 = .ok () := by decide
  refine (registers_iff hnew (Prod.ext rfl henable)).mpr fun _ =>
    ⟨"/data/otelop/startup/otelop".toList, by decide, List.all_iff_forall_prop.mp (by decide)⟩

/-- The launcher is under a directory whose name is a control character. -/
theorem controlCharacter_replaced :
    new "darwin" (asciiBytes "/Users/u") [] [0x2F, 0x01] =
        .ok (sampleRegistration [0x2F, 0x01]) ∧
      ((sampleRegistration [0x2F, 0x01]).enable sampleOs (fun _ => true)
        (asciiBytes "/opt/otelop")).2 = .ok () ∧
      ¬ Registers (sampleRegistration [0x2F, 0x01]) (asciiBytes "/opt/otelop")
        (launcherPath (asciiBytes "/Users/u") [0x2F, 0x01])
        ((sampleRegistration [0x2F, 0x01]).enable sampleOs (fun _ => true)
          (asciiBytes "/opt/otelop")).1 := by
  have henable : ((sampleRegistration [0x2F, 0x01]).enable sampleOs (fun _ => true)
      (asciiBytes "/opt/otelop")).2 = .ok () := by decide
  have hwrapper : (sampleRegistration [0x2F, 0x01]).wrapper ≠ [] :=
    launcherPath_ne_nil (asciiBytes "/Users/u") [0x2F, 0x01]
  have hplatform : (sampleRegistration [0x2F, 0x01]).platform = "darwin" := rfl
  refine ⟨by decide, henable, ?_⟩
  generalize hrun : (sampleRegistration [0x2F, 0x01]).enable sampleOs (fun _ => true)
    (asciiBytes "/opt/otelop") = run at henable ⊢
  obtain ⟨written, result⟩ := run
  dsimp only at henable
  rw [henable] at hrun
  have hwritten := Registration.enable_darwin hplatform hwrapper hrun
  rw [Registers, if_pos hplatform, hwritten]
  rintro ⟨script, plist, hfiles, -, -, -, hplist⟩
  cases hfiles
  obtain ⟨chars, hchars, hrange⟩ := (plistProgram_launchAgentTemplate_iff _).mp hplist
  have hpath : launcherPath (asciiBytes "/Users/u") [0x2F, 0x01] =
      utf8Bytes ('/' :: Char.ofNat 1 :: "/otelop/startup/otelop".toList) := by decide
  have hrunes := congrArg readRunes (hpath.symm.trans hchars)
  rw [readRunes_utf8Bytes, readRunes_utf8Bytes] at hrunes
  have hmem : Rune.char (Char.ofNat 1) ∈ chars.map .char := by
    rw [← hrunes]
    exact List.mem_map_of_mem (List.mem_cons_of_mem _ List.mem_cons_self)
  obtain ⟨c, hc, heq⟩ := List.mem_map.mp hmem
  have hcontrol := hrange c hc
  rw [Rune.char.inj heq] at hcontrol
  revert hcontrol
  decide

end Startup
end Otelop
