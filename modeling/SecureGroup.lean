import SecureGroup.Bytes.Hex
import SecureGroup.Crypto.Sha512
import SecureGroup.Suite.Standard
import SecureGroup.Base58
import SecureGroup.Entropy
import SecureGroup.Text.Quoted
import SecureGroup.Text.Blank
import SecureGroup.Text.Lines
import SecureGroup.Wire.Codec
import SecureGroup.Error
import SecureGroup.Invitation
import SecureGroup.Envelope
import SecureGroup.Json.Printer
import SecureGroup.Json.Parser
import SecureGroup.Network
import SecureGroup.Attendance
import SecureGroup.Session
import SecureGroup.Log.Traffic
import SecureGroup.Emitter
import SecureGroup.Journal
import SecureGroup.Proofs.Roster
import SecureGroup.Proofs.Replay
import SecureGroup.Proofs.Reached
import SecureGroup.Proofs.Order
import SecureGroup.Proofs.Views
import SecureGroup.Suite.Plain
import SecureGroup.Proofs.Provenance
import SecureGroup.Proofs.Ledger
import SecureGroup.Proofs.Closure
import SecureGroup.Proofs.Convergence
import SecureGroup.Proofs.Redelivery
import SecureGroup.Proofs.Batches
import SecureGroup.Proofs.Accounts
import SecureGroup.Proofs.Ratchet
import SecureGroup.Proofs.Sealing
import SecureGroup.Proofs.Delivery
import SecureGroup.Proofs.Possession
import SecureGroup.Proofs.Lapses
import SecureGroup.Proofs.Codecs
import SecureGroup.Proofs.Spellings
import SecureGroup.Proofs.Secrets
import SecureGroup.Proofs.Handover
import SecureGroup.Proofs.Commitment
import SecureGroup.Proofs.Separation
import SecureGroup.Proofs.Derivation
import SecureGroup.Proofs.Restarts
import SecureGroup.Proofs.Copies
import SecureGroup.Proofs.Attendance
import SecureGroup.Proofs.Base58
import SecureGroup.Proofs.Invitations
import SecureGroup.Proofs.Joining
import SecureGroup.Proofs.Unbroken
import SecureGroup.Proofs.Availability
import SecureGroup.Proofs.Requests
import SecureGroup.Proofs.Overlap
import SecureGroup.Proofs.CurrentKeys
import SecureGroup.Proofs.Rejection
import SecureGroup.Proofs.Quiescence
import SecureGroup.Proofs.Redemption
import SecureGroup.Proofs.InvitationText
import SecureGroup.Proofs.Framing
import SecureGroup.Proofs.Exchange
import SecureGroup.Proofs.Contents
import SecureGroup.Proofs.Shape
import SecureGroup.Proofs.Repetition
import SecureGroup.Proofs.Deferral
import SecureGroup.Proofs.GroupText
import SecureGroup.Proofs.Steps
import SecureGroup.Proofs.Subscriptions
import SecureGroup.Proofs.JsonText
import SecureGroup.Proofs.JournalLines
