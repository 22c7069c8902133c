import RkQuic.ClientConfig

/-! The server's configuration, and the identity it is served under. The JSON decoder, the
PEM reader, the certificate decoder and the TLS layer are other people's code: what they
answer is in `Library`, and each may answer anything. -/
namespace RkQuic.Config
open Ffi Outcomes

structure ServerConfig where
  bind_address : String
  certificate_chain_pem : String
  private_key_pem : String
  path : String
  idle_timeout_ms : UInt64
  deriving DecidableEq, Repr

inductive SocketAddr where
  | v4 (ip : String) (port : UInt16)
  | v6 (ip : String) (port : UInt16)
  deriving DecidableEq, Repr

def SocketAddr.display : SocketAddr → String
  | .v4 ip port => ip ++ ":" ++ toString port.toNat
  | .v6 ip port => "[" ++ ip ++ "]:" ++ toString port.toNat

inductive PrivateKeyDer where
  | pkcs1 (der : Bytes)
  | sec1 (der : Bytes)
  | pkcs8 (der : Bytes)
  | unknown
  deriving DecidableEq, Repr

structure ParsedConfig where
  bind : SocketAddr
  chain : List Bytes
  key : PrivateKeyDer
  path : String
  idle_timeout : UInt64
  deriving DecidableEq, Repr

structure Identity where
  chain : List Bytes
  key : Bytes
  deriving DecidableEq, Repr

inductive ErrorKind where
  | addrInUse
  | other
  deriving DecidableEq, Repr

structure IoError where
  kind : ErrorKind
  text : String
  deriving DecidableEq, Repr

/-- What the layers below a creating call answer. An error is its text. `debug` and `debugMs`
are `{:?}` of a text and of a duration in milliseconds. `accepts` is whether the TLS layer takes a
chain and a key for a pair, which `with_identity` expects and panics otherwise; `fits` is whether
a timeout is in QUIC's range. -/
structure Library where
  debug : String → String
  debugMs : UInt64 → String
  lowercase : String → String
  serverJson : String → Outcome String ServerConfig
  clientJson : String → Outcome String ClientConfig
  socketAddr : String → Option SocketAddr
  certs : String → Outcome String (List Bytes)
  privateKey : String → Outcome String (Option PrivateKeyDer)
  fromDer : Bytes → Outcome String Bytes
  accepts : Identity → Bool
  fits : UInt64 → Bool
  runtime : Outcome String Unit
  serve : SocketAddr → Outcome IoError Unit
  localAddr : Outcome String UInt16
  clientEndpoint : Outcome String Unit
  dial : String → Outcome String Unit
  openBi : Outcome String Unit
  opening : Outcome String UInt64

def badCertificate (message : String) : Refusal := (.badCertificate, message)

def ServerConfig.parse (lib : Library) (config : ServerConfig) : Outcome Refusal ParsedConfig := do
  let bind ← .okOr (invalid ("bindAddress \"" ++ config.bind_address ++ "\" is not host:port — note that a bare host " ++
    "is not enough, the port has to be there even if it is 0")) (lib.socketAddr config.bind_address)
  if config.path.toList.head? ≠ some '/' then
    .err (invalid ("path \"" ++ config.path ++ "\" must start with /"))
  else if config.idle_timeout_ms < 1000 then
    .err (invalid ("idleTimeoutMs is " ++ toString config.idle_timeout_ms.toNat ++ ", and under a second a live " ++
      "session would be dropped as dead; there is no value meaning 'never', because a peer that vanishes " ++
      "silently would then never be noticed"))
  else do
    let chain ← (lib.certs config.certificate_chain_pem).mapErr fun e =>
      badCertificate ("certificateChainPem is not readable PEM: " ++ e)
    if chain = [] then .err (badCertificate "certificateChainPem contains no CERTIFICATE block")
    else do
      let found ← (lib.privateKey config.private_key_pem).mapErr fun e =>
        badCertificate ("privateKeyPem is not readable PEM: " ++ e)
      let key ← .okOr (badCertificate "privateKeyPem contains no PRIVATE KEY block") found
      pure ⟨bind, chain, key, config.path, config.idle_timeout_ms⟩

def certificates (lib : Library) : List Bytes → Outcome Refusal (List Bytes)
  | [] => pure []
  | der :: rest => do
    let certificate ← (lib.fromDer der).mapErr fun e =>
      badCertificate ("certificate in chain is not usable: " ++ e)
    let chain ← certificates lib rest
    pure (certificate :: chain)

def keyKind : PrivateKeyDer → String
  | .pkcs1 _ => "PKCS#1 (BEGIN RSA PRIVATE KEY)"
  | .sec1 _ => "SEC1 (BEGIN EC PRIVATE KEY)"
  | _ => "of an unknown kind"

/- `from_der_pkcs8` wraps the bytes and looks at nothing. -/
def identityFrom (lib : Library) (config : ParsedConfig) : Outcome Refusal Identity := do
  let chain ← certificates lib config.chain
  match config.key with
  | .pkcs8 der => pure ⟨chain, der⟩
  | other =>
    .err (badCertificate ("private key is " ++ keyKind other ++
      ", and only PKCS#8 is accepted — convert with `openssl pkcs8 -topk8`"))

end RkQuic.Config
