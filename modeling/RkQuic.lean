import RkQuic.Payload
import RkQuic.Bookkeeping
import RkQuic.ClientStreams
import RkQuic.StreamClose
import RkQuic.TwoHalves
import RkQuic.ClientConfig
import RkQuic.Handles
import RkQuic.Orphans
import RkQuic.Fingerprint
import RkQuic.Verdicts
import RkQuic.SessionIds
import RkQuic.CommandChannel
import RkQuic.HeldUp
import RkQuic.Loader
import RkQuic.Threads
import RkQuic.EventJson
import RkQuic.HexText
import RkQuic.StreamTrace
import RkQuic.Frozen
import RkQuic.Latecomers
import RkQuic.Sending
import RkQuic.Dropping
import RkQuic.Ownership
import RkQuic.Schemas
import RkQuic.Secrecy
import RkQuic.Programs
import RkQuic.JsonText
import RkQuic.ConfigJson
import RkQuic.NewerEvents
import RkQuic.Worker
import RkQuic.Lives
import RkQuic.Poller
import RkQuic.Hearing
import RkQuic.LastPoll
import RkQuic.Messages
import RkQuic.Starting
import RkQuic.Datagrams
