import ChainAccess.Abi.Decoding
import ChainAccess.Abi.Encoding
import ChainAccess.Abi.Interface
import ChainAccess.Abi.Kind
import ChainAccess.Abi.Specifier
import ChainAccess.Abi.Value
import ChainAccess.Account.Error
import ChainAccess.Account.Keystore
import ChainAccess.Amount.Decimal
import ChainAccess.Amount.Quantity
import ChainAccess.Amount.Scaling
import ChainAccess.Amount.Word
import ChainAccess.Backoff
import ChainAccess.Chain.Address
import ChainAccess.Chain.Block
import ChainAccess.Chain.CallRequest
import ChainAccess.Chain.Log
import ChainAccess.Chain.Receipt
import ChainAccess.Client
import ChainAccess.CommandLine.Basic
import ChainAccess.CommandLine.Run
import ChainAccess.Contract.Batch
import ChainAccess.Contract.Binding
import ChainAccess.Contract.Registry
import ChainAccess.Crypto.Aes
import ChainAccess.Crypto.Derivation
import ChainAccess.Crypto.Keccak
import ChainAccess.Crypto.Secp256k1
import ChainAccess.Crypto.Sha256
import ChainAccess.Diagnosis
import ChainAccess.Files.Tree
import ChainAccess.Gas.Estimates
import ChainAccess.Gas.Estimator
import ChainAccess.Gas.Policy
import ChainAccess.Handle
import ChainAccess.Http.Status
import ChainAccess.Json.Basic
import ChainAccess.Json.Number
import ChainAccess.Json.Printer
import ChainAccess.Json.Reader
import ChainAccess.Json.Record
import ChainAccess.Main
import ChainAccess.Network.Basic
import ChainAccess.Network.Directory
import ChainAccess.Pool.Basic
import ChainAccess.Pool.Crowd
import ChainAccess.Pool.Http
import ChainAccess.Pool.Routine
import ChainAccess.Pool.Run
import ChainAccess.Rpc.Error
import ChainAccess.Rpc.Message
import ChainAccess.Scripted.Node
import ChainAccess.Scripted.Queue
import ChainAccess.Scripted.Wire
import ChainAccess.Text.Hex
import ChainAccess.Text.Lower
import ChainAccess.Text.Quoted
import ChainAccess.Text.Utf8
import ChainAccess.Transaction.Builder
import ChainAccess.Transaction.Error
import ChainAccess.Transaction.Plan
import ChainAccess.Transaction.Prepared
import ChainAccess.Transaction.Rlp
import ChainAccess.Transport
import ChainAccess.Url.Basic
import ChainAccess.Url.Host
import ChainAccess.Url.Percent
import ChainAccess.Workflow.Attempts
import ChainAccess.Workflow.Basic
import ChainAccess.Proofs.Pool.Changes
import ChainAccess.Proofs.Pool.Interleaving
import ChainAccess.Proofs.Pool.Discipline
import ChainAccess.Proofs.Pool.Soundness
import ChainAccess.Proofs.Pool.Crowd
import ChainAccess.Proofs.Pool.Story
import ChainAccess.Proofs.Pool.Outcomes
import ChainAccess.Proofs.Pool.Requests
import ChainAccess.Proofs.Pool.Failover
import ChainAccess.Proofs.Pool.Tries
import ChainAccess.Proofs.Pool.Memory
import ChainAccess.Proofs.Pool.Terms
import ChainAccess.Proofs.Pool.Departure
import ChainAccess.Proofs.Pool.Reports
import ChainAccess.Proofs.Workflow.Attempts
import ChainAccess.Proofs.Workflow.Outcomes
import ChainAccess.Proofs.Workflow.Requests
import ChainAccess.Proofs.Workflow.Transcripts
import ChainAccess.Proofs.Handle.Attempts
import ChainAccess.Proofs.Transaction.Broadcast
import ChainAccess.Proofs.Pool.Solo
import ChainAccess.Proofs.Pool.Transport
import ChainAccess.Proofs.Handle.Stalls
import ChainAccess.Proofs.Handle.Transcripts
import ChainAccess.Proofs.Gas.Transcripts
import ChainAccess.Proofs.Transaction.Build
import ChainAccess.Proofs.Transaction.Submission
import ChainAccess.Proofs.Transaction.Rlp
import ChainAccess.Proofs.Transaction.Signed
import ChainAccess.Proofs.Transaction.Simulation
import ChainAccess.Proofs.Contract.Answers
import ChainAccess.Proofs.Contract.Batch
import ChainAccess.Proofs.Handle.Schedule
import ChainAccess.Proofs.Contract.Payloads
import ChainAccess.Proofs.Contract.Singles
import ChainAccess.Proofs.Amount.Scaling
import ChainAccess.Proofs.Amount.Overflow
import ChainAccess.Proofs.Rpc.Words
import ChainAccess.Proofs.Pool.Failures
import ChainAccess.Proofs.Gas.Estimation
import ChainAccess.Proofs.Handle.Endings
import ChainAccess.Proofs.Gas.Limits
import ChainAccess.Proofs.Gas.Frames
import ChainAccess.Proofs.Gas.Memory
import ChainAccess.Proofs.Contract.Overloads
import ChainAccess.Proofs.Contract.Registry
import ChainAccess.Proofs.Rpc.Refusals
import ChainAccess.Proofs.Handle.Outward
import ChainAccess.Proofs.Transaction.Histories
import ChainAccess.Proofs.Json.Soundness
import ChainAccess.Proofs.Json.Records
import ChainAccess.Proofs.Chain.Scalars
import ChainAccess.Proofs.Chain.Wire
import ChainAccess.Proofs.Amount.Decimals
import ChainAccess.Proofs.Network.Settings
import ChainAccess.Proofs.Network.Startup
import ChainAccess.Proofs.Amount.Factors
import ChainAccess.Proofs.Gas.Prices
import ChainAccess.Proofs.Handle.Rests
import ChainAccess.Proofs.Pool.Selection
import ChainAccess.Proofs.Pool.Resends
import ChainAccess.Proofs.Pool.Sending
import ChainAccess.Proofs.Pool.Twins
import ChainAccess.Proofs.Contract.Matching
import ChainAccess.Proofs.Account.Keystores
import ChainAccess.Proofs.Text.Utf8
import ChainAccess.Proofs.Transaction.Confirmation
import ChainAccess.Proofs.Network.Directories
import ChainAccess.Proofs.Url.Normal
import ChainAccess.Proofs.Handle.Replies
