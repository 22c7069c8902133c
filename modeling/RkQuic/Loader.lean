import Mathlib.Tactic

/-! Opening the native library twice: `probeNativeLibrary` asks whether it is there, and
`_openBindings` opens what the probe has named. `Platform` is everything the two can see. -/
namespace RkQuic.Loader

/-- `file` is what was mapped; two handles of one file are one library. -/
structure Library where
  file : Nat
  exports : List String
  abiVersion : UInt32
  version : String
  deriving DecidableEq, Repr

/-- An error is the text of what was thrown. `open_` is `DynamicLibrary.open`, and `process`
is `DynamicLibrary.process`. -/
structure Platform where
  windows : Bool
  apple : Bool
  explicit : Option String
  open_ : String → Except String Library
  process : Except String Library
  notExported : String → String

def rkQuicAbiVersion : UInt32 := 2

def processImageCandidate : String := "<process image>"

def defaultCandidatePaths (platform : Platform) : List String :=
  let explicit := match platform.explicit with
    | some path => if path = "" then [] else [path]
    | none => []
  if platform.windows then explicit ++ ["rk_quic.dll"]
  else if platform.apple then
    explicit ++ ["rk_quic.framework/rk_quic", "librk_quic.dylib", processImageCandidate]
  else explicit ++ ["librk_quic.so"]

inductive NativeLoadOutcome where
  | loaded
  | unsupportedPlatform
  | libraryMissing
  | symbolMissing
  | abiMismatch
  deriving DecidableEq, Repr

structure NativeProbe where
  outcome : NativeLoadOutcome
  version : Option String := none
  abiVersion : Option UInt32 := none
  detail : Option String := none
  path : Option String := none
  deriving DecidableEq, Repr

def NativeProbe.isUsable (probe : NativeProbe) : Bool := probe.outcome == .loaded

def lookup (platform : Platform) (library : Library) (symbol : String) : Except String Unit :=
  if symbol ∈ library.exports then .ok () else .error (platform.notExported symbol)

def firstLine (error : String) : String := String.ofList (error.toList.takeWhile (· ≠ '\n'))

def openCandidate (platform : Platform) (path : String) : Except String Library :=
  if path = processImageCandidate then platform.process else platform.open_ path

def ask (platform : Platform) (expected : UInt32) (path : String) (library : Library) : NativeProbe :=
  match (do lookup platform library "rk_quic_abi_version"; lookup platform library "rk_quic_version") with
  | .error error =>
    {outcome := .symbolMissing, path := some path,
     detail := some ("opened but does not export the rk_quic ABI: " ++ firstLine error)}
  | .ok () =>
    if library.abiVersion ≠ expected then
      {outcome := .abiMismatch, path := some path, version := some library.version,
       abiVersion := some library.abiVersion,
       detail := some ("library implements ABI generation " ++ toString library.abiVersion.toNat ++
         ", this build speaks " ++ toString expected.toNat)}
    else {outcome := .loaded, path := some path, version := some library.version, abiVersion := some library.abiVersion}

def probeFrom (platform : Platform) (expected : UInt32) (attempts : List String) : List String → NativeProbe
  | [] => {outcome := .libraryMissing,
           detail := some ("tried " ++ toString attempts.length ++ ": " ++ "; ".intercalate attempts)}
  | path :: rest =>
    match openCandidate platform path with
    | .error error => probeFrom platform expected (attempts ++ [path ++ ": " ++ firstLine error]) rest
    | .ok library => ask platform expected path library

def probeNativeLibrary (platform : Platform) (expectedAbiVersion : Option UInt32)
    (candidatePaths : Option (List String)) : NativeProbe :=
  let expected := expectedAbiVersion.getD rkQuicAbiVersion
  let candidates := candidatePaths.getD (defaultCandidatePaths platform)
  if candidates = [] then
    {outcome := .libraryMissing, detail := some "no candidate library names for this platform"}
  else probeFrom platform expected [] candidates

def entryPoints : List String :=
  ["rk_quic_abi_version", "rk_quic_version", "rk_quic_string_free", "rk_quic_last_error", "rk_quic_server_start",
   "rk_quic_server_stop", "rk_quic_server_local_port", "rk_quic_server_poll", "rk_quic_session_send",
   "rk_quic_stream_send", "rk_quic_stream_close", "rk_quic_client_connect", "rk_quic_client_open_stream"]

structure RkQuicBindings where
  library : Library
  resolved : ∀ symbol ∈ entryPoints, symbol ∈ library.exports

/- A lookup that throws ends the constructor. -/
def bind (library : Library) : Option RkQuicBindings :=
  if resolved : ∀ symbol ∈ entryPoints, symbol ∈ library.exports then some ⟨library, resolved⟩ else none

def openBindings (platform : Platform) (candidatePaths : Option (List String)) : Option RkQuicBindings :=
  let probe := probeNativeLibrary platform none candidatePaths
  if !probe.isUsable then none
  else match probe.path with
    | none => none
    | some path =>
      match platform.open_ path with
      | .ok library => bind library
      | .error _ => none

/-! The probe answers for the first candidate that opens. -/

def firstOpening (platform : Platform) : List String → Option (String × Library)
  | [] => none
  | path :: rest =>
    match openCandidate platform path with
    | .error _ => firstOpening platform rest
    | .ok library => some (path, library)

theorem probeAsks {platform : Platform} {expected : UInt32} {attempts candidates : List String}
    (loaded : (probeFrom platform expected attempts candidates).outcome = .loaded) :
    ∃ path library, firstOpening platform candidates = some (path, library) ∧
      probeFrom platform expected attempts candidates = ask platform expected path library := by
  induction candidates generalizing attempts with
  | nil => cases loaded
  | cons path rest ih =>
    simp only [probeFrom, firstOpening] at loaded ⊢
    cases opened : openCandidate platform path with
    | error error =>
      rw [opened] at loaded
      exact ih loaded
    | ok library => exact ⟨path, library, rfl, rfl⟩

theorem askPath {platform : Platform} {expected : UInt32} {path : String} {library : Library} :
    (ask platform expected path library).path = some path := by
  unfold ask
  split
  · rfl
  · split <;> rfl

theorem bindLibrary {library : Library} {bindings : RkQuicBindings} (made : bind library = some bindings) :
    bindings.library = library := by
  unfold bind at made
  split at made <;> cases made
  rfl

def probed (platform : Platform) (candidatePaths : Option (List String)) : Option (String × Library) :=
  firstOpening platform (candidatePaths.getD (defaultCandidatePaths platform))

theorem usableAsks {platform : Platform} {candidatePaths : Option (List String)}
    (loaded : (probeNativeLibrary platform none candidatePaths).outcome = .loaded) :
    ∃ path library, probed platform candidatePaths = some (path, library) ∧
      (probeNativeLibrary platform none candidatePaths).path = some path := by
  simp only [probeNativeLibrary] at loaded ⊢
  split at loaded
  · cases loaded
  · rename_i some
    obtain ⟨path, library, first, same⟩ := probeAsks loaded
    refine ⟨path, library, first, ?_⟩
    rw [if_neg some, same]
    exact askPath

theorem usableOpens {platform : Platform} {candidatePaths : Option (List String)}
    (loaded : (probeNativeLibrary platform none candidatePaths).outcome = .loaded) :
    (∃ bindings, openBindings platform candidatePaths = some bindings ∧
      (probed platform candidatePaths).map Prod.snd = some bindings.library) ↔
    ∃ path library, probed platform candidatePaths = some (path, library) ∧
      platform.open_ path = .ok library ∧ ∀ symbol ∈ entryPoints, symbol ∈ library.exports := by
  obtain ⟨path, library, first, named⟩ := usableAsks loaded
  have usable : (probeNativeLibrary platform none candidatePaths).isUsable = true := by
    rw [NativeProbe.isUsable, loaded]
    rfl
  have opens : openBindings platform candidatePaths =
      match platform.open_ path with
      | .ok library => bind library
      | .error _ => none := by
    simp [openBindings, usable, named]
  rw [opens, first]
  constructor
  · rintro ⟨bindings, made, same⟩
    have same : library = bindings.library := Option.some.inj same
    cases opened : platform.open_ path with
    | error error =>
      rw [opened] at made
      cases made
    | ok other =>
      rw [opened] at made
      have other : library = other := same.trans (bindLibrary made)
      exact ⟨path, library, rfl, other ▸ opened, same ▸ bindings.resolved⟩
  · rintro ⟨_, _, same, opened, all⟩
    cases same
    rw [opened]
    exact ⟨⟨library, all⟩, dif_pos all, rfl⟩

def complete : Library := ⟨1, entryPoints, 2, "0.3.0"⟩

def linux : Platform where
  windows := false
  apple := false
  explicit := none
  open_ path := if path = "librk_quic.so" then .ok complete else .error "Failed to load dynamic library"
  process := .ok ⟨0, [], 0, ""⟩
  notExported symbol := "undefined symbol: " ++ symbol

theorem usableOpensLinux : ∃ bindings, openBindings linux none = some bindings ∧ bindings.library = complete := by
  have loaded : (probeNativeLibrary linux none none).outcome = .loaded := by decide +kernel
  have all : ∀ symbol ∈ entryPoints, symbol ∈ complete.exports := fun _ => id
  obtain ⟨bindings, made, same⟩ := (usableOpens loaded).mpr ⟨"librk_quic.so", complete, by decide +kernel, rfl, all⟩
  refine ⟨bindings, made, ?_⟩
  have first : probed linux none = some ("librk_quic.so", complete) := by decide +kernel
  rw [first] at same
  exact (Option.some.inj same).symm

def linked : Platform := {linux with apple := true, open_ := fun _ => .error "image not found", process := .ok complete}

theorem processImageUnopened : (probeNativeLibrary linked none none).outcome = .loaded ∧
    (∀ symbol ∈ entryPoints, symbol ∈ complete.exports) ∧ openBindings linked none = none :=
  ⟨by decide +kernel, fun _ => id, rfl⟩

/-! The whole of the answer, whatever the candidates. -/

structure First (platform : Platform) (candidates : List String) (path : String) (library : Library) : Prop where
  opens : openCandidate platform path = .ok library
  after : ∃ before after, candidates = before ++ path :: after ∧ ∀ p ∈ before, ∃ error, openCandidate platform p = .error error

def reason (platform : Platform) (path : String) : String :=
  match openCandidate platform path with
  | .error error => path ++ ": " ++ firstLine error
  | .ok _ => path

theorem probePasses {platform : Platform} {expected : UInt32} {attempts before rest : List String}
    (fail : ∀ p ∈ before, ∃ error, openCandidate platform p = .error error) :
    probeFrom platform expected attempts (before ++ rest) =
      probeFrom platform expected (attempts ++ before.map (reason platform)) rest := by
  induction before generalizing attempts with
  | nil => simp
  | cons path before ih =>
    obtain ⟨error, failed⟩ := fail path List.mem_cons_self
    rw [List.cons_append, probeFrom]
    simp only [failed]
    rw [ih fun p member => fail p (List.mem_cons_of_mem _ member)]
    simp [reason, failed]

theorem firstAsked {platform : Platform} {expected : UInt32} {candidates : List String} {path : String} {library : Library}
    (first : First platform candidates path library) :
    probeFrom platform expected [] candidates = ask platform expected path library := by
  obtain ⟨opens, before, after, rfl, fail⟩ := first
  rw [probePasses fail, probeFrom, opens]

theorem firstOrNone (platform : Platform) (candidates : List String) :
    (∃ path library, First platform candidates path library) ∨
      ∀ p ∈ candidates, ∃ error, openCandidate platform p = .error error := by
  induction candidates with
  | nil => exact .inr (by simp)
  | cons path rest ih =>
    cases opened : openCandidate platform path with
    | ok library => exact .inl ⟨path, library, opened, [], rest, rfl, by simp⟩
    | error error =>
      rcases ih with ⟨path', library, opens, before, after, rfl, fail⟩ | none_
      · refine .inl ⟨path', library, opens, path :: before, after, rfl, fun p member => ?_⟩
        rcases List.mem_cons.mp member with rfl | member
        · exact ⟨error, opened⟩
        · exact fail p member
      · refine .inr fun p member => ?_
        rcases List.mem_cons.mp member with rfl | member
        · exact ⟨error, opened⟩
        · exact none_ p member

theorem noneOpens {platform : Platform} {expected : UInt32} {candidates : List String}
    (fail : ∀ p ∈ candidates, ∃ error, openCandidate platform p = .error error) :
    probeFrom platform expected [] candidates =
      {outcome := .libraryMissing,
       detail := some ("tried " ++ toString candidates.length ++ ": " ++ "; ".intercalate (candidates.map (reason platform)))} := by
  have passed := @probePasses platform expected [] candidates [] fail
  rw [List.append_nil] at passed
  rw [passed, probeFrom, List.nil_append, List.length_map]

def asked : List String := ["rk_quic_abi_version", "rk_quic_version"]

theorem askLoaded {platform : Platform} {expected : UInt32} {path : String} {library : Library} :
    (ask platform expected path library).outcome = .loaded ↔
      (∀ symbol ∈ asked, symbol ∈ library.exports) ∧ library.abiVersion = expected := by
  by_cases abi : "rk_quic_abi_version" ∈ library.exports
  · by_cases version : "rk_quic_version" ∈ library.exports
    · by_cases same : library.abiVersion = expected <;> simp [ask, lookup, asked, abi, version, same, Bind.bind, Except.bind]
    · simp [ask, lookup, asked, abi, version, Bind.bind, Except.bind]
  · simp [ask, lookup, asked, abi, Bind.bind, Except.bind]

theorem bindExactly {library : Library} {bindings : RkQuicBindings} :
    RkQuic.Loader.bind library = some bindings ↔ bindings.library = library := by
  constructor
  · exact bindLibrary
  · rintro rfl
    exact dif_pos bindings.resolved

theorem probeFirst {platform : Platform} {expected : Option UInt32} {candidatePaths : Option (List String)} {path : String}
    {library : Library} (first : First platform (candidatePaths.getD (defaultCandidatePaths platform)) path library) :
    probeNativeLibrary platform expected candidatePaths = ask platform (expected.getD rkQuicAbiVersion) path library := by
  have some_ : candidatePaths.getD (defaultCandidatePaths platform) ≠ [] := by
    obtain ⟨-, before, after, same, -⟩ := first
    rw [same]
    simp
  simp only [probeNativeLibrary]
  rw [if_neg some_, firstAsked first]

theorem probeNone {platform : Platform} {expected : Option UInt32} {candidatePaths : Option (List String)}
    (fail : ∀ p ∈ candidatePaths.getD (defaultCandidatePaths platform), ∃ error, openCandidate platform p = .error error) :
    (probeNativeLibrary platform expected candidatePaths).outcome = .libraryMissing := by
  simp only [probeNativeLibrary]
  split
  · rfl
  · rw [noneOpens fail]

theorem loaderAnswers (platform : Platform) (candidatePaths : Option (List String)) :
    (∀ expected path library, First platform (candidatePaths.getD (defaultCandidatePaths platform)) path library →
      probeNativeLibrary platform expected candidatePaths = ask platform (expected.getD rkQuicAbiVersion) path library) ∧
    (∀ expected, candidatePaths.getD (defaultCandidatePaths platform) ≠ [] →
      (∀ p ∈ candidatePaths.getD (defaultCandidatePaths platform), ∃ error, openCandidate platform p = .error error) →
      probeNativeLibrary platform expected candidatePaths =
        {outcome := .libraryMissing,
         detail := some ("tried " ++ toString (candidatePaths.getD (defaultCandidatePaths platform)).length ++ ": " ++
           "; ".intercalate ((candidatePaths.getD (defaultCandidatePaths platform)).map (reason platform)))}) ∧
    (∀ expected, candidatePaths = some [] →
      probeNativeLibrary platform expected candidatePaths =
        {outcome := .libraryMissing, detail := some "no candidate library names for this platform"}) ∧
    (∀ bindings, openBindings platform candidatePaths = some bindings ↔
      ∃ path library, First platform (candidatePaths.getD (defaultCandidatePaths platform)) path library ∧
        (∀ symbol ∈ asked, symbol ∈ library.exports) ∧ library.abiVersion = rkQuicAbiVersion ∧
        platform.open_ path = .ok bindings.library) ∧
    ∀ expected path library, platform.explicit = some path → path ≠ "" → openCandidate platform path = .ok library →
      probeNativeLibrary platform expected none = ask platform (expected.getD rkQuicAbiVersion) path library := by
  refine ⟨fun _ _ _ => probeFirst, fun expected some_ fail => ?_, fun expected empty => ?_, fun bindings => ?_,
    fun expected path library given text opens => ?_⟩
  · simp only [probeNativeLibrary]
    rw [if_neg some_, noneOpens fail]
  · rw [empty]
    rfl
  · constructor
    · intro made
      rcases firstOrNone platform (candidatePaths.getD (defaultCandidatePaths platform)) with ⟨path, library, first⟩ | fail
      · refine ⟨path, library, first, ?_⟩
        simp only [openBindings, NativeProbe.isUsable, probeFirst first, askPath] at made
        split at made
        · cases made
        · rename_i usable
          have loaded : (ask platform rkQuicAbiVersion path library).outcome = .loaded := by simpa using usable
          cases opened : platform.open_ path with
          | error error => simp [opened] at made
          | ok other =>
            simp only [opened, bindExactly] at made
            rw [made]
            exact ⟨(askLoaded.mp loaded).1, (askLoaded.mp loaded).2, rfl⟩
      · simp [openBindings, NativeProbe.isUsable, probeNone fail] at made
    · rintro ⟨path, library, first, symbols, generation, opened⟩
      have loaded : (ask platform rkQuicAbiVersion path library).outcome = .loaded := askLoaded.mpr ⟨symbols, generation⟩
      simp [openBindings, NativeProbe.isUsable, probeFirst first, askPath, loaded, opened, bindExactly]
  · refine probeFirst ⟨opens, [], (defaultCandidatePaths platform).tail, ?_, by simp⟩
    simp only [Option.getD_none, defaultCandidatePaths, given, if_neg text]
    split
    · rfl
    · split <;> rfl

end RkQuic.Loader
