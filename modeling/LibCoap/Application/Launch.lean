import LibCoap.Address.Destination
import LibCoap.Application.Program
import LibCoap.Client.Paths
import LibCoap.Machine.History
import LibCoap.Machine.Settings

/-! # The command line of the client

`parse_arguments` and `main` of `client.cc` up to its loop. The options set variables that begin with defaults,
the last one wins, and three of the variables are read nowhere. Which command lines get to the loop, and what
they ask for over which connection, is said by `starts_iff`. -/

namespace LibCoap

open Machine Text

/-! ## The options -/

/-- What a call of `getopt_long` returns, with `optarg`. -/
inductive CommandOption where
  | help
  /-- An unknown option, or one that lacks its argument. -/
  | unknown
  | port (optarg : List UInt8)
  | ipv4 (optarg : List UInt8)
  | ipv6 (optarg : List UInt8)
  | client (optarg : List UInt8)
  | interactive
  | file (optarg : List UInt8)
  deriving DecidableEq, Repr

/-- `(unsigned int)strtol(optarg, &endptr, 10)`. -/
def unsignedValue (optarg : List UInt8) : UInt32 := UInt32.ofNat (strtol optarg % 2 ^ 32).toNat

/-- The variables that the options set. -/
structure Arguments where
  serverPort : UInt32
  clientPort : UInt32
  useIPv6 : Bool
  useInteractiveMode : Bool
  ipAddress : List UInt8
  downloadedFileName : List UInt8
  deriving DecidableEq, Repr

namespace Arguments

/-- Their values in the beginning; the address is `::1` and the file `data/example.bin`. -/
def default : Arguments where
  serverPort := 5683
  clientPort := 56083
  useIPv6 := true
  useInteractiveMode := true
  ipAddress := [0x3A, 0x3A, 0x31]
  downloadedFileName := [0x64, 0x61, 0x74, 0x61, 0x2F, 0x65, 0x78, 0x61, 0x6D, 0x70, 0x6C, 0x65, 0x2E,
    0x62, 0x69, 0x6E]

/-- An iteration of `parse_arguments`; `none` when it returns `false`. -/
def take (a : Arguments) : CommandOption → Option Arguments
  | .help | .unknown => none
  | .port optarg =>
    if unsignedValue optarg = 0 then none else some { a with serverPort := unsignedValue optarg }
  | .ipv4 optarg => some { a with useIPv6 := false, ipAddress := optarg }
  | .ipv6 optarg => some { a with useIPv6 := true, ipAddress := optarg }
  | .client optarg =>
    if unsignedValue optarg = 0 then none else some { a with clientPort := unsignedValue optarg }
  | .interactive => some { a with useInteractiveMode := true }
  | .file optarg => some { a with useInteractiveMode := false, downloadedFileName := optarg }

end Arguments

/-- `parse_arguments`, for the results of `getopt_long`. -/
def parseArguments (argc : Nat) (options : List CommandOption) : Option Arguments :=
  if argc = 1 then none else options.foldlM Arguments.take .default

/-! ## The program -/

/-- An `unsigned int` as an `int`. -/
def asInt (v : UInt32) : Int := if v.toNat < 2 ^ 31 then v.toNat else v.toNat - 2 ^ 32

/-- What the program finds where it is started. -/
structure Surrounding where
  resolver : Resolver
  memory : ClientConnection.Memory
  /-- The buffer of the connection. -/
  buffer : List UInt8

/-- `main` up to its loop; `none` when it exits with `EXIT_FAILURE`. What the constructors throw is caught. -/
def main (argc : Nat) (options : List CommandOption) (w : Surrounding) :
    Exec (Option (Program × ClientConnection)) :=
  match parseArguments argc options with
  | none => .ok none
  | some a =>
    match ClientConnection.create a.ipAddress (asInt a.serverPort) w.memory with
    | .error _ => .ok none
    | .ok c =>
      match Program.launch a.downloadedFileName c.port w.buffer with
      | .error .exception => .ok none
      | .error e => .error e
      | .ok p =>
        match c.establish w.resolver with
        | none => .error .outOfRange
        | some (false, _) => .ok none
        | some (true, c) => .ok (some (p, c))

/-! ## What the options do -/

namespace CommandOption

/-- What an option sets the port to. -/
def port? : CommandOption → Option UInt32
  | .port optarg => some (unsignedValue optarg)
  | _ => none

/-- What an option sets the address to. -/
def address? : CommandOption → Option (List UInt8)
  | .ipv4 optarg | .ipv6 optarg => some optarg
  | _ => none

/-- What an option sets the path to. -/
def file? : CommandOption → Option (List UInt8)
  | .file optarg => some optarg
  | _ => none

/-- The option is known, and a number in it is not zero. -/
def Accepted : CommandOption → Prop
  | .help | .unknown => False
  | .port optarg | .client optarg => unsignedValue optarg ≠ 0
  | _ => True

end CommandOption

/-- The port, the address and the path behind some options. -/
structure Settings where
  port : UInt32
  address : List UInt8
  file : List UInt8
  deriving DecidableEq, Repr

/-- What is read of the variables. -/
def Arguments.settings (a : Arguments) : Settings := ⟨a.serverPort, a.ipAddress, a.downloadedFileName⟩

/-- **The last options win.** -/
def settings (start : Settings) (options : List CommandOption) : Settings where
  port := lastSetting CommandOption.port? start.port options
  address := lastSetting CommandOption.address? start.address options
  file := lastSetting CommandOption.file? start.file options

/-- An option is taken exactly when it is accepted. -/
theorem take_eq_some {a a' : Arguments} {o : CommandOption} (h : a.take o = some a') :
    o.Accepted ∧ a'.settings =
      ⟨o.port?.getD a.serverPort, o.address?.getD a.ipAddress, o.file?.getD a.downloadedFileName⟩ := by
  cases o with
  | help | unknown => cases h
  | ipv4 | ipv6 | interactive | file =>
    cases h
    exact ⟨trivial, rfl⟩
  | port | client =>
    simp only [Arguments.take] at h
    split at h
    · cases h
    · next hvalue =>
      cases h
      exact ⟨hvalue, rfl⟩

/-- Otherwise it is not. -/
theorem exists_take {o : CommandOption} (h : o.Accepted) (a : Arguments) : ∃ a', a.take o = some a' := by
  cases o with
  | help | unknown => cases h
  | ipv4 | ipv6 | interactive | file => exact ⟨_, rfl⟩
  | port | client => exact ⟨_, if_neg h⟩

/-- **The loop of `parse_arguments`** ends exactly when all options are accepted, and the last ones win. -/
theorem foldlM_take {a : Arguments} {options : List CommandOption} :
    (∀ a', options.foldlM Arguments.take a = some a' → (∀ o ∈ options, o.Accepted) ∧
        a'.settings = settings a.settings options) ∧
      ((∀ o ∈ options, o.Accepted) → ∃ a', options.foldlM Arguments.take a = some a') := by
  induction options generalizing a with
  | nil =>
    refine ⟨fun a' h => ?_, fun _ => ⟨a, rfl⟩⟩
    cases h
    exact ⟨fun o ho => absurd ho List.not_mem_nil, rfl⟩
  | cons o os ih =>
    constructor
    · intro a' h
      obtain ⟨a₁, htake, hrest⟩ := Option.bind_eq_some_iff.mp h
      obtain ⟨haccepted, hset⟩ := take_eq_some htake
      obtain ⟨hothers, hsettings⟩ := ih.1 a' hrest
      refine ⟨List.forall_mem_cons.mpr ⟨haccepted, hothers⟩, ?_⟩
      rw [hsettings, hset]
      simp only [settings, lastSetting_cons]
      rfl
    · intro haccepted
      obtain ⟨hfirst, hothers⟩ := List.forall_mem_cons.mp haccepted
      obtain ⟨a₁, htake⟩ := exists_take hfirst a
      obtain ⟨a', hrest⟩ := ih.2 hothers
      exact ⟨a', Option.bind_eq_some_iff.mpr ⟨a₁, htake, hrest⟩⟩

variable {argc : Nat} {options : List CommandOption} {w : Surrounding}

/-- **`parse_arguments`** returns `true` exactly when there are arguments and all options are accepted. -/
theorem parseArguments_eq_some :
    (∀ a, parseArguments argc options = some a → argc ≠ 1 ∧ (∀ o ∈ options, o.Accepted) ∧
        a.settings = settings Arguments.default.settings options) ∧
      (argc ≠ 1 → (∀ o ∈ options, o.Accepted) → ∃ a, parseArguments argc options = some a) := by
  constructor
  · intro a h
    rw [parseArguments] at h
    split at h
    · cases h
    · next hargc => exact ⟨hargc, foldlM_take.1 a h⟩
  · intro hargc haccepted
    rw [parseArguments, if_neg hargc]
    exact foldlM_take.2 haccepted

/-! ## What is created -/

/-- A port from `2 ^ 31` on is refused as a negative one. -/
theorem create_asInt (hostname : List UInt8) (v : UInt32) (m : ClientConnection.Memory) :
    ClientConnection.create hostname (asInt v) m = ClientConnection.create hostname v.toNat m := by
  have hlt : v.toNat < 2 ^ 32 := v.toNat_lt
  rw [asInt]
  split
  · rfl
  · next hbig =>
    have hnegative : (v.toNat : Int) - 2 ^ 32 < 0 := by omega
    have hlarge : (v.toNat : Int) > 65535 := by omega
    rw [ClientConnection.create, ClientConnection.create, if_pos (.inl hnegative), if_pos (.inr hlarge)]

/-- **The endpoint is created** for the paths whose first segment does not look like a number; it asks for
the segments. -/
theorem exists_launch_iff {path : List UInt8} {port : UInt16} {buffer : List UInt8} {u : Uri} :
    (∃ p, Program.launch path port buffer = .ok p ∧ p.ep.destUri = u) ↔
      ∃ first rest, readTokens path = first :: rest ∧ ¬NumberLike first ∧
        u = ⟨path, .string, first :: rest, []⟩ := by
  constructor
  · rintro ⟨p, hlaunch, rfl⟩
    obtain ⟨e, hcreate, hp⟩ := bind_eq_ok.mp hlaunch
    obtain ⟨u, hu, he⟩ := bind_eq_ok.mp hcreate
    obtain ⟨name, hname, he⟩ := bind_eq_ok.mp he
    cases hp
    cases he
    obtain ⟨first, rest, hread, ⟨-, rfl⟩ | ⟨hnumber, rfl⟩⟩ := ofPath_eq_ok hu
    · -- the access to the last string is out of range
      have hlast : ([] : List (List UInt8)).getLast? = some name := fileName_eq_ok.mp hname
      cases hlast
    · exact ⟨first, rest, hread, hnumber, rfl⟩
  · rintro ⟨first, rest, hread, hnumber, rfl⟩
    have hu : Uri.ofPath path = .ok ⟨path, .string, first :: rest, []⟩ := by
      have hsome := ((pathToUri_tokens path).2 first rest hread).2 hnumber
      rw [Uri.ofPath, hsome]
    obtain ⟨name, hlast⟩ : ∃ name, (first :: rest).getLast? = some name := ⟨_, List.getLast?_cons⟩
    have hname : Uri.fileName ⟨path, .string, first :: rest, []⟩ = .ok name := fileName_eq_ok.mpr hlast
    exact ⟨_, bind_eq_ok.mpr ⟨_, bind_eq_ok.mpr ⟨_, hu, bind_eq_ok.mpr ⟨name, hname, rfl⟩⟩, rfl⟩, rfl⟩

/-- `main` gets to its loop when nothing of what it does first goes wrong. -/
theorem main_eq_started {p : Program} {c : ClientConnection} :
    main argc options w = .ok (some (p, c)) ↔
      ∃ a c₀, parseArguments argc options = some a ∧
        ClientConnection.create a.ipAddress (asInt a.serverPort) w.memory = .ok c₀ ∧
        Program.launch a.downloadedFileName c₀.port w.buffer = .ok p ∧
        c₀.establish w.resolver = some (true, c) := by
  rw [main]
  constructor
  · intro h
    split at h
    · cases h
    · next a hparse =>
      split at h
      · cases h
      · next c₀ hcreate =>
        split at h
        · cases h
        · cases h
        · next p' hlaunch =>
          split at h
          · cases h
          · cases h
          · next c' hestablish =>
            cases h
            exact ⟨a, c₀, hparse, hcreate, hlaunch, hestablish⟩
  · rintro ⟨a, c₀, hparse, hcreate, hlaunch, hestablish⟩
    simp only [hparse, hcreate, hlaunch, hestablish]

/-- **Which command lines start the client**, and what it asks for over which connection. -/
theorem starts_iff {u : Uri} {c : ClientConnection} :
    (∃ p, main argc options w = .ok (some (p, c)) ∧ p.ep.destUri = u) ↔
      argc ≠ 1 ∧ (∀ o ∈ options, o.Accepted) ∧
        ClientConnection.Established w.resolver (settings Arguments.default.settings options).address
          (settings Arguments.default.settings options).port.toNat w.memory c ∧
        ∃ first rest, readTokens (settings Arguments.default.settings options).file = first :: rest ∧
          ¬NumberLike first ∧
          u = ⟨(settings Arguments.default.settings options).file, .string, first :: rest, []⟩ := by
  constructor
  · rintro ⟨p, hmain, hu⟩
    obtain ⟨a, c₀, hparse, hcreate, hlaunch, hestablish⟩ := main_eq_started.mp hmain
    obtain ⟨hargc, haccepted, hsettings⟩ := parseArguments_eq_some.1 a hparse
    rw [create_asInt] at hcreate
    rw [← hsettings]
    exact ⟨hargc, haccepted, ⟨c₀, hcreate, hestablish⟩, exists_launch_iff.mp ⟨p, hlaunch, hu⟩⟩
  · rintro ⟨hargc, haccepted, ⟨c₀, hcreate, hestablish⟩, hpath⟩
    obtain ⟨a, hparse⟩ := parseArguments_eq_some.2 hargc haccepted
    rw [← (parseArguments_eq_some.1 a hparse).2.2] at hcreate hpath
    obtain ⟨p, hlaunch, hu⟩ : ∃ p, Program.launch a.downloadedFileName c₀.port w.buffer = .ok p ∧
        p.ep.destUri = u := exists_launch_iff.mpr hpath
    refine ⟨p, main_eq_started.mpr ⟨a, c₀, hparse, ?_, hlaunch, hestablish⟩, hu⟩
    rw [create_asInt]
    exact hcreate

end LibCoap
