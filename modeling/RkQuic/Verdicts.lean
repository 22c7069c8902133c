import RkQuic.AllOrNothing

/-! What the caller of `rk_quic_server_start` is told, and how that depends on the layers
below. `Verdict` says it of the configuration; the code is compared with it. -/
namespace RkQuic.Creating
open Config Ffi Outcomes Str

structure Steady (lib : Library) : Prop where
  serverJson : ∀ json, lib.serverJson json ≠ .panicked
  certs : ∀ pem, lib.certs pem ≠ .panicked
  privateKey : ∀ pem, lib.privateKey pem ≠ .panicked
  fromDer : ∀ der, lib.fromDer der ≠ .panicked
  runtime : lib.runtime ≠ .panicked
  serve : ∀ address, lib.serve address ≠ .panicked
  localAddr : lib.localAddr ≠ .panicked

variable {lib : Library} {config_json : Option Bytes}

def Shaped (lib : Library) (config_json : Option Bytes) (config : ServerConfig) : Prop :=
  ∃ json, borrowCString config_json = some json ∧ lib.serverJson json = .ok config

structure Scalars (lib : Library) (config : ServerConfig) (bind : SocketAddr) : Prop where
  address : lib.socketAddr config.bind_address = some bind
  path : config.path.toList.head? = some '/'
  idle : 1000 ≤ config.idle_timeout_ms

structure Identified (lib : Library) (config : ServerConfig) (identity : Identity) : Prop where
  chain : ∃ ders, lib.certs config.certificate_chain_pem = .ok ders ∧ ders ≠ [] ∧
    List.Forall₂ (fun der certificate => lib.fromDer der = .ok certificate) ders identity.chain
  key : lib.privateKey config.private_key_pem = .ok (some (.pkcs8 identity.key))

def Presentable (lib : Library) (config_json : Option Bytes) (bind : SocketAddr) : Prop :=
  ∃ config identity, Shaped lib config_json config ∧ Scalars lib config bind ∧ Identified lib config identity ∧
    lib.accepts identity = true

def Mismatched (lib : Library) (config_json : Option Bytes) : Prop :=
  ∃ config bind identity, Shaped lib config_json config ∧ Scalars lib config bind ∧ Identified lib config identity ∧
    lib.accepts identity = false

inductive Verdict (lib : Library) (config_json : Option Bytes) : Status → Prop where
  | shape (never : ∀ config, ¬ Shaped lib config_json config) : Verdict lib config_json .invalidArgument
  | scalar {config} (shaped : Shaped lib config_json config) (wrong : ∀ bind, ¬ Scalars lib config bind) :
      Verdict lib config_json .invalidArgument
  | certificate {config bind} (shaped : Shaped lib config_json config) (scalars : Scalars lib config bind)
      (wrong : ∀ identity, Identified lib config identity → lib.accepts identity = false) :
      Verdict lib config_json .badCertificate
  | runtime {bind e} (right : Presentable lib config_json bind) (failed : lib.runtime = .err e) :
      Verdict lib config_json .bindFailed
  | bind {bind e} (right : Presentable lib config_json bind) (runs : lib.runtime = .ok ())
      (failed : lib.serve bind = .err e) : Verdict lib config_json (bindStatus e)
  | address {bind e} (right : Presentable lib config_json bind) (runs : lib.runtime = .ok ())
      (bound : lib.serve bind = .ok ()) (failed : lib.localAddr = .err e) : Verdict lib config_json .bindFailed
  | ok {bind port} (right : Presentable lib config_json bind) (runs : lib.runtime = .ok ())
      (bound : lib.serve bind = .ok ()) (address : lib.localAddr = .ok port) : Verdict lib config_json .ok

theorem verdictNoPanic : ¬ Verdict lib config_json .panic := by
  generalize named : Status.panic = status
  rintro (_ | _ | _ | _ | @⟨bind, e, _, _, _⟩ | _ | _) <;> try cases named
  unfold bindStatus at named
  split at named <;> cases named

/-! The steps of the call, one after the other. -/

theorem configRead {config : ServerConfig} :
    readConfig config_json lib.serverJson = .ok config ↔ Shaped lib config_json config := by
  simp only [readConfig, bindOk, okOrOk, mapErrOk, Shaped]

structure Parsed (lib : Library) (config : ServerConfig) (parsed : ParsedConfig) : Prop where
  scalars : Scalars lib config parsed.bind
  chain : lib.certs config.certificate_chain_pem = .ok parsed.chain
  nonempty : parsed.chain ≠ []
  key : lib.privateKey config.private_key_pem = .ok (some parsed.key)
  idle : parsed.idle_timeout = config.idle_timeout_ms

theorem parsedOk {config : ServerConfig} {parsed : ParsedConfig} (done : config.parse lib = .ok parsed) :
    Parsed lib config parsed := by
  simp only [ServerConfig.parse, bindOk, okOrOk] at done
  obtain ⟨bind, address, done⟩ := done
  split_ifs at done with path idle
  simp only [bindOk, mapErrOk] at done
  obtain ⟨chain, certs, done⟩ := done
  split_ifs at done with empty
  simp only [bindOk, mapErrOk, okOrOk] at done
  obtain ⟨found, privateKey, key, rfl, last⟩ := done
  cases last
  exact ⟨⟨address, not_not.mp path, UInt64.not_lt.mp idle⟩, certs, empty, privateKey, rfl⟩

theorem parsedErr {config : ServerConfig} {refusal : Refusal} (refused : config.parse lib = .err refusal) :
    (refusal.1 = .invalidArgument ∧ ∀ bind, ¬ Scalars lib config bind) ∨
    (refusal.1 = .badCertificate ∧ ∃ bind, Scalars lib config bind ∧ ∀ identity, ¬ Identified lib config identity) := by
  simp only [ServerConfig.parse, bindErr, okOrErr, okOrOk] at refused
  rcases refused with ⟨missing, rfl⟩ | ⟨bind, address, refused⟩
  · exact .inl ⟨rfl, fun bind right => by cases missing.symm.trans right.address⟩
  split_ifs at refused with path idle
  · cases refused
    exact .inl ⟨rfl, fun bind right => path right.path⟩
  · cases refused
    exact .inl ⟨rfl, fun bind right => UInt64.not_lt.mpr right.idle idle⟩
  refine .inr ?_
  have scalars : Scalars lib config bind := ⟨address, not_not.mp path, UInt64.not_lt.mp idle⟩
  simp only [bindErr, mapErrErr, mapErrOk] at refused
  rcases refused with ⟨e, unread, rfl⟩ | ⟨chain, certs, refused⟩
  · exact ⟨rfl, bind, scalars, fun identity right => by
      obtain ⟨ders, read, -⟩ := right.chain
      cases unread.symm.trans read⟩
  split_ifs at refused with empty
  · cases refused
    exact ⟨rfl, bind, scalars, fun identity right => by
      obtain ⟨ders, read, some, -⟩ := right.chain
      cases certs.symm.trans read
      exact some empty⟩
  simp only [bindErr, mapErrErr, mapErrOk, okOrErr] at refused
  rcases refused with ⟨e, unread, rfl⟩ | ⟨found, read, ⟨none, rfl⟩ | ⟨key, -, last⟩⟩
  · exact ⟨rfl, bind, scalars, fun identity right => by cases unread.symm.trans right.key⟩
  · exact ⟨rfl, bind, scalars, fun identity right => by
      rw [none] at read
      cases read.symm.trans right.key⟩
  · cases last

theorem parsedSteady (steady : Steady lib) {config : ServerConfig} : config.parse lib ≠ .panicked := by
  intro panics
  simp only [ServerConfig.parse, bindPanicked, okOrPanicked, false_or] at panics
  obtain ⟨bind, -, panics⟩ := panics
  split_ifs at panics
  simp only [bindPanicked, mapErrPanicked] at panics
  rcases panics with bad | ⟨chain, -, panics⟩
  · exact steady.certs _ bad
  split_ifs at panics
  simp only [bindPanicked, mapErrPanicked, okOrPanicked, false_or] at panics
  rcases panics with bad | ⟨found, -, key, -, last⟩
  · exact steady.privateKey _ bad
  · cases last

theorem certificatesOk {ders chain : List Bytes} :
    certificates lib ders = .ok chain ↔ List.Forall₂ (fun der certificate => lib.fromDer der = .ok certificate) ders chain := by
  induction ders generalizing chain with
  | nil => simp [certificates, eq_comm]
  | cons der rest ih =>
    simp only [certificates, bindOk, mapErrOk, pureOk, Outcome.ok.injEq, List.forall₂_cons_left_iff, ih]
    constructor
    · rintro ⟨certificate, decoded, chain, tail, rfl⟩
      exact ⟨certificate, chain, decoded, tail, rfl⟩
    · rintro ⟨certificate, chain, decoded, tail, rfl⟩
      exact ⟨certificate, decoded, chain, tail, rfl⟩

theorem certificatesSteady (steady : Steady lib) {ders : List Bytes} : certificates lib ders ≠ .panicked := by
  induction ders with
  | nil => simp [certificates]
  | cons der rest ih =>
    simp only [certificates, ne_eq, bindPanicked, mapErrPanicked, pureOk]
    rintro (bad | ⟨certificate, -, bad | ⟨chain, -, last⟩⟩)
    · exact steady.fromDer _ bad
    · exact ih bad
    · cases last

theorem identityOk {config : ServerConfig} {parsed : ParsedConfig} (of : Parsed lib config parsed) {identity : Identity} :
    identityFrom lib parsed = .ok identity ↔ Identified lib config identity := by
  have keys : ∀ der, parsed.key = .pkcs8 der ↔ lib.privateKey config.private_key_pem = .ok (some (.pkcs8 der)) := by
    intro der
    rw [of.key]
    simp
  simp only [identityFrom, bindOk, certificatesOk]
  constructor
  · rintro ⟨chain, decoded, done⟩
    split at done
    · cases done
      exact ⟨⟨parsed.chain, of.chain, of.nonempty, decoded⟩, (keys _).mp ‹_›⟩
    · cases done
  · rintro ⟨⟨ders, read, -, decoded⟩, key⟩
    cases of.chain.symm.trans read
    refine ⟨identity.chain, decoded, ?_⟩
    rw [(keys _).mpr key]
    rfl

theorem identitySteady (steady : Steady lib) {parsed : ParsedConfig} : identityFrom lib parsed ≠ .panicked := by
  intro panics
  rcases bindPanicked.mp panics with bad | ⟨chain, -, rest⟩
  · exact certificatesSteady steady bad
  · split at rest <;> cases rest

/-! The status is the one of the layers' answers in their order. -/

theorem socketVerdict (steady : Steady lib) {config : ParsedConfig} (right : Presentable lib config_json config.bind) :
    Verdict lib config_json (told (do
      lib.runtime.mapErr noRuntime
      (lib.serve config.bind).mapErr fun e => (bindStatus e, "bind " ++ config.bind.display ++ ": " ++ e.text)
      lib.localAddr.mapErr fun e => (.bindFailed, "no local address: " ++ e))) := by
  cases runs : lib.runtime with
  | err e => exact .runtime right runs
  | panicked => exact absurd runs steady.runtime
  | ok =>
    cases bound : lib.serve config.bind with
    | err e => exact .bind right runs bound
    | panicked => exact absurd bound (steady.serve _)
    | ok =>
      cases address : lib.localAddr with
      | err e => exact .address right runs bound address
      | panicked => exact absurd address steady.localAddr
      | ok port => exact .ok right runs bound address

theorem identityRefusedOnly {config : ServerConfig} {parsed : ParsedConfig} (of : Parsed lib config parsed)
    {refusal : Refusal} (refused : identityFrom lib parsed = .err refusal) :
    ∀ identity, ¬ Identified lib config identity := by
  intro identity right
  cases refused.symm.trans ((identityOk of).mpr right)

theorem planVerdict (steady : Steady lib)
    (range : ∀ config, Shaped lib config_json config → lib.fits config.idle_timeout_ms = true)
    (matched : ¬ Mismatched lib config_json) : Verdict lib config_json (told (serverPlan lib config_json)) := by
  rw [serverPlan]
  cases read : readConfig config_json lib.serverJson with
  | err refusal =>
    rw [errBind, told, configRefused read]
    exact .shape fun config shaped => by cases read.symm.trans (configRead.mpr shaped)
  | panicked =>
    simp only [readConfig, bindPanicked, okOrPanicked, mapErrPanicked, false_or] at read
    obtain ⟨json, -, bad⟩ := read
    exact absurd bad (steady.serverJson _)
  | ok config =>
    have shaped := configRead.mp read
    rw [okBind]
    cases done : config.parse lib with
    | panicked => exact absurd done (parsedSteady steady)
    | err refusal =>
      rw [errBind, told]
      rcases parsedErr done with ⟨status, wrong⟩ | ⟨status, bind, scalars, wrong⟩
      · rw [status]
        exact .scalar shaped wrong
      · rw [status]
        exact .certificate shaped scalars fun identity right => absurd right (wrong identity)
    | ok parsed =>
      have of := parsedOk done
      rw [okBind, startPlan]
      cases made : identityFrom lib parsed with
      | panicked => exact absurd made (identitySteady steady)
      | err refusal =>
        rw [errBind, told, identityRefused made]
        exact .certificate shaped of.scalars fun identity right => absurd right (identityRefusedOnly of made identity)
      | ok identity =>
        have identified := (identityOk of).mp made
        cases pair : lib.accepts identity with
        | false => exact absurd ⟨config, parsed.bind, identity, shaped, of.scalars, identified, pair⟩ matched
        | true =>
          have inRange : idleRange lib parsed.idle_timeout = .ok () := by
            rw [idleRange, of.idle, range config shaped]
            rfl
          rw [okBind, pair, ready, okBind, inRange, okBind]
          exact socketVerdict steady ⟨config, identity, shaped, of.scalars, identified, pair⟩

theorem planPanics (steady : Steady lib) (mismatched : Mismatched lib config_json) :
    serverPlan lib config_json = .panicked := by
  obtain ⟨config, bind, identity, shaped, scalars, identified, pair⟩ := mismatched
  rw [serverPlan, configRead.mpr shaped, okBind]
  cases done : config.parse lib with
  | panicked => exact absurd done (parsedSteady steady)
  | err refusal =>
    rcases parsedErr done with ⟨-, wrong⟩ | ⟨-, _, -, wrong⟩
    · exact absurd scalars (wrong bind)
    · exact absurd identified (wrong identity)
  | ok parsed => rw [okBind, startPlan, (identityOk (parsedOk done)).mpr identified, okBind, pair, ready, panickedBind]

theorem startClassified (steady : Steady lib)
    (range : ∀ config, Shaped lib config_json config → lib.fits config.idle_timeout_ms = true) (w : World) :
    (Verdict lib config_json (rkQuicServerStart lib config_json w).1 ∧
      ((rkQuicServerStart lib config_json w).1 ≠ .ok → (rkQuicServerStart lib config_json w).2.lastError ≠ none)) ↔
    ¬ Mismatched lib config_json := by
  constructor
  · rintro ⟨verdict, -⟩ mismatched
    rw [serverTold, planPanics steady mismatched] at verdict
    exact verdictNoPanic verdict
  · intro matched
    have verdict : Verdict lib config_json (rkQuicServerStart lib config_json w).1 := by
      rw [serverTold]
      exact planVerdict steady range matched
    refine ⟨verdict, fun refused => ?_⟩
    rcases callMakes lib (.server config_json) w with ⟨ok, -⟩ | ⟨-, message, same, said⟩
    · exact absurd ok refused
    · show ((Entry.server config_json).call lib w).2.lastError ≠ none
      rw [same]
      exact said fun panic => verdictNoPanic (panic ▸ verdict)

theorem willingSteady (hash : String) : Steady (willing hash) where
  serverJson json := by
    simp only [willing]
    split <;> simp
  certs _ := by simp [willing]
  privateKey _ := by simp [willing]
  fromDer _ := by simp [willing]
  runtime := by simp [willing]
  serve _ := by simp [willing]
  localAddr := by simp [willing]

theorem willingInRange {hash : String} {config : ServerConfig} (shaped : Shaped (willing hash) config_json config) :
    (willing hash).fits config.idle_timeout_ms = true := by
  obtain ⟨json, -, decoded⟩ := shaped
  simp only [willing] at decoded
  split at decoded <;> cases decoded
  rfl

theorem startClassifiedOk : Verdict (willing zeroHash) starting (rkQuicServerStart (willing zeroHash) starting freshWorld).1 :=
  ((startClassified (willingSteady zeroHash) (fun _ => willingInRange) freshWorld).mpr
    fun ⟨_, _, _, _, _, _, refused⟩ => by cases refused).1

def unmatched : Library := {willing zeroHash with accepts := fun _ => false}

theorem mismatchPanics : (rkQuicServerStart unmatched starting freshWorld).1 = .panic ∧
    (rkQuicServerStart unmatched starting freshWorld).2.lastError = none ∧
    ¬ Verdict unmatched starting (rkQuicServerStart unmatched starting freshWorld).1 := by
  have seen : ((rkQuicServerStart unmatched starting freshWorld).1, (rkQuicServerStart unmatched starting freshWorld).2.lastError) =
      (.panic, none) := by decide +kernel
  obtain ⟨panics, silent⟩ := Prod.mk.injEq .. ▸ seen
  refine ⟨panics, silent, ?_⟩
  rw [panics]
  exact verdictNoPanic

/-! The client's fingerprint. -/

def ParsesOrRefuses (lib : Library) (config_json : Option Bytes) (config : ClientConfig) (w : World) : Prop :=
  (∃ parsed, config.parse lib.debug = .ok parsed) ∨
    ∃ message, config.parse lib.debug = .err (.invalidArgument, message) ∧
      (rkQuicClientConnect lib config_json w).1 = .invalidArgument

theorem connectParsed {config : ClientConfig} (read : readConfig config_json lib.clientJson = .ok config) (w : World) :
    (∃ parsed, config.parse lib.debug = .ok parsed) ∨
    (rkQuicClientConnect lib config_json w).1 = told (config.parse lib.debug) := by
  rw [rkQuicClientConnect, guarded, clientConnect, clearLastError, writeBind, liftBind, read]
  dsimp only
  rw [liftBind]
  cases config.parse lib.debug with
  | ok parsed => exact .inl ⟨parsed, rfl⟩
  | err | panicked => exact .inr rfl

theorem parsePanics {debug : String → String} {config : ClientConfig} (url : "https://".toList <+: config.url.toList)
    (idle : config.idle_timeout_ms ≠ 0) :
    config.parse debug = .panicked ↔ Straddles (Utf8.encode (trim config.certificate_hash_sha256)) := by
  have some : config.url.toList ≠ [] := by
    intro empty
    rw [empty] at url
    cases List.prefix_nil.mp url
  simp only [ClientConfig.parse, some, url, idle, if_false, not_true_eq_false, pureOk, bindPanicked]
  rw [hashPanics]
  simp

theorem parseNoPanic {config_json : Option Bytes} {config : ClientConfig}
    (read : readConfig config_json lib.clientJson = .ok config) (url : "https://".toList <+: config.url.toList)
    (idle : config.idle_timeout_ms ≠ 0) (w : World) :
    (ParsesOrRefuses lib config_json config w ↔
      ¬ Straddles (Utf8.encode (trim config.certificate_hash_sha256))) ∧
    (Straddles (Utf8.encode (trim config.certificate_hash_sha256)) →
      (rkQuicClientConnect lib config_json w).1 = .panic) := by
  have told := connectParsed read w
  rw [← @parsePanics lib.debug config url idle]
  cases parsed : config.parse lib.debug with
  | ok result => simp [ParsesOrRefuses, parsed]
  | err refusal =>
    rw [parsed] at told
    have status := clientParseRefused parsed
    refine ⟨⟨fun _ => by simp, fun _ => .inr ⟨refusal.2, ?_, ?_⟩⟩, by simp⟩
    · rw [parsed, ← status]
    · exact (told.resolve_left (by simp)).trans status
  | panicked =>
    rw [parsed] at told
    exact ⟨⟨fun either => by simp [ParsesOrRefuses, parsed] at either, fun h => absurd rfl h⟩,
      fun _ => told.resolve_left (by simp)⟩

def withHash (hash : String) : ClientConfig := ⟨"https://[::1]:4433/rk", hash, 30000⟩

def connectingTo (hash : String) : Option Bytes := some (toNativeUtf8 (clientText hash))

theorem parseNoPanicZero : ParsesOrRefuses (willing zeroHash) (connectingTo zeroHash) (withHash zeroHash) freshWorld := by
  have read : readConfig (connectingTo zeroHash) (willing zeroHash).clientJson = .ok (withHash zeroHash) := by decide +kernel
  refine (parseNoPanic read (by decide +kernel) (by decide) freshWorld).1.mpr ?_
  rw [← hashPanics id]
  decide +kernel

def accented : String := String.ofList ('a' :: 'é' :: List.replicate 61 '0')

theorem accentPanics : readConfig (connectingTo accented) (willing accented).clientJson = .ok (withHash accented) ∧
    (rkQuicClientConnect (willing accented) (connectingTo accented) freshWorld).1 = .panic ∧
    ¬ ParsesOrRefuses (willing accented) (connectingTo accented) (withHash accented) freshWorld := by
  have panics : (withHash accented).parse (willing accented).debug = .panicked := by decide +kernel
  refine ⟨by decide +kernel, by decide +kernel, ?_⟩
  rw [ParsesOrRefuses, panics]
  simp

end RkQuic.Creating
