import AgentMesh.Collections
import AgentMesh.Runs
import AgentMesh.Tenure
import AgentMesh.Tickets
import AgentMesh.Framing
import AgentMesh.Delimited
import AgentMesh.Disk
import AgentMesh.Segments
import AgentMesh.Replace
import AgentMesh.HashChain
import AgentMesh.Replay
import AgentMesh.Content
import AgentMesh.Caveats
import AgentMesh.CertChain
import AgentMesh.Revocation
import AgentMesh.Event
import AgentMesh.Records
import AgentMesh.Admission
import AgentMesh.Admitted
import AgentMesh.Chain
import AgentMesh.Sessions
import AgentMesh.State
import AgentMesh.Follower
import AgentMesh.TableSteps
import AgentMesh.History
import AgentMesh.Ideal
import AgentMesh.Rosters
import AgentMesh.Citations
import AgentMesh.Attempts
import AgentMesh.SignatureDomains
import AgentMesh.SshTransfer
import AgentMesh.SessionTable
import AgentMesh.SingleUse
import AgentMesh.Certified
import AgentMesh.Ratchet
import AgentMesh.Handoff
import AgentMesh.Agreement
import AgentMesh.Challenges
import AgentMesh.Turns
import AgentMesh.Invites
import AgentMesh.FirstLink
import AgentMesh.Log
import AgentMesh.Server
import AgentMesh.Entry
import AgentMesh.Effects
import AgentMesh.LiveReplay
import AgentMesh.Journal
import AgentMesh.Reader
import AgentMesh.Guard
import AgentMesh.Attenuation
import AgentMesh.Envelope
import AgentMesh.Inbox
import AgentMesh.Dispatch
import AgentMesh.Sending
import AgentMesh.Reservations
import AgentMesh.Interference
import AgentMesh.EnvelopeStream
import AgentMesh.Session
import AgentMesh.SessionWriter
import AgentMesh.Channel
import AgentMesh.Handshake
import AgentMesh.Stream
import AgentMesh.Delivery
import AgentMesh.Recovery
import AgentMesh.Crash
import AgentMesh.Bridge
import AgentMesh.Fences
import AgentMesh.Grants
import AgentMesh.Retries
import AgentMesh.TornTails
import AgentMesh.ResumePoints
import AgentMesh.RevocationChains
import AgentMesh.LiveCheck
import AgentMesh.Failures
import AgentMesh.Receipts
import AgentMesh.Renewal
import AgentMesh.GenerationScopes
import AgentMesh.Escaping
import AgentMesh.Text
import AgentMesh.SignerScreen
import AgentMesh.Dialogue
import AgentMesh.Herdr
import AgentMesh.Nudge
import AgentMesh.NudgeRuns
import AgentMesh.ChainHeads
import AgentMesh.Closing
import AgentMesh.NudgeRecords
import AgentMesh.Beneath
import AgentMesh.Waiters
import AgentMesh.WaiterRuns
import AgentMesh.EnvelopeReading
import AgentMesh.EventLogs
import AgentMesh.EventRows
import AgentMesh.Views
import AgentMesh.NonceWindow
import AgentMesh.SequenceLimits
import AgentMesh.Bookkeeping
import AgentMesh.Connections
import AgentMesh.ConnectionTrust
import AgentMesh.AttachSocket
import AgentMesh.Wakeups
import AgentMesh.BridgeGate
