import RkQuic.Utf8

/-! How a call ends, on both sides of the boundary. A status crosses it as a
terminated name, never as a number, so the two enumerations meet only in their names. -/
namespace RkQuic

inductive Status where
  | ok | invalidArgument | unknownHandle | portInUse | bindFailed | badCertificate
  | peerGone | wouldBlock | notRunning | panic | unsupported
  deriving DecidableEq, Repr

def Status.name : Status → String
  | .ok => "ok"
  | .invalidArgument => "invalidArgument"
  | .unknownHandle => "unknownHandle"
  | .portInUse => "portInUse"
  | .bindFailed => "bindFailed"
  | .badCertificate => "badCertificate"
  | .peerGone => "peerGone"
  | .wouldBlock => "wouldBlock"
  | .notRunning => "notRunning"
  | .panic => "panic"
  | .unsupported => "unsupported"

def Status.nameWithNul (s : Status) : String := s.name ++ "\x00"

/-- The Dart enumeration: the native names and one of its own. -/
inductive RkQuicStatus where
  | ok | invalidArgument | unknownHandle | portInUse | bindFailed | badCertificate
  | peerGone | wouldBlock | notRunning | panic | unsupported | unrecognised
  deriving DecidableEq, Repr

namespace RkQuicStatus

def name : RkQuicStatus → String
  | ok => "ok"
  | invalidArgument => "invalidArgument"
  | unknownHandle => "unknownHandle"
  | portInUse => "portInUse"
  | bindFailed => "bindFailed"
  | badCertificate => "badCertificate"
  | peerGone => "peerGone"
  | wouldBlock => "wouldBlock"
  | notRunning => "notRunning"
  | panic => "panic"
  | unsupported => "unsupported"
  | unrecognised => "unrecognised"

def values : List RkQuicStatus :=
  [ok, invalidArgument, unknownHandle, portInUse, bindFailed, badCertificate, peerGone,
    wouldBlock, notRunning, panic, unsupported, unrecognised]

def ofStatus : Status → RkQuicStatus
  | .ok => ok
  | .invalidArgument => invalidArgument
  | .unknownHandle => unknownHandle
  | .portInUse => portInUse
  | .bindFailed => bindFailed
  | .badCertificate => badCertificate
  | .peerGone => peerGone
  | .wouldBlock => wouldBlock
  | .notRunning => notRunning
  | .panic => panic
  | .unsupported => unsupported

theorem ofStatusOk {s : Status} : ofStatus s = ok ↔ s = .ok := by
  cases s <;> decide

end RkQuicStatus

def statusFromWireName (wireName : Option String) : RkQuicStatus :=
  match wireName with
  | none => .unrecognised
  | some wireName =>
    if wireName = "" then .unrecognised
    else (RkQuicStatus.values.find? (fun status => status.name == wireName)).getD .unrecognised

theorem statusFromName (s : Status) : statusFromWireName (some s.name) = RkQuicStatus.ofStatus s := by
  cases s <;> decide

theorem nameHasNoNul (s : Status) : '\x00' ∉ s.name.toList := by
  cases s <;> decide

end RkQuic
