import ContractHost.Main
import ContractHost.Samples.Handlers
import ContractHost.Samples.Script
import ContractHost.Proofs.Schema.Reach
import ContractHost.Proofs.Schema.Walk
import ContractHost.Proofs.Schema.Cycles
import ContractHost.Proofs.Schema.Calls
import ContractHost.Proofs.Schema.Termination
import ContractHost.Proofs.Number.Value
import ContractHost.Proofs.Schema.Semantics
import ContractHost.Proofs.Contract.Responses
import ContractHost.Proofs.Contract.Lifecycle
import ContractHost.Proofs.Contract.Breaches
import ContractHost.Proofs.Data.Typing
import ContractHost.Proofs.Json.Lexing
import ContractHost.Proofs.Data.Writing
import ContractHost.Proofs.Document.Generation
import ContractHost.Proofs.Number.Rounding
import ContractHost.Proofs.Document.Usability
import ContractHost.Proofs.Document.Acceptance
import ContractHost.Proofs.Chaincode.Addresses
import ContractHost.Proofs.Chaincode.Enforcement
import ContractHost.Proofs.Text.Utf8
import ContractHost.Proofs.Schema.Growth
import ContractHost.Proofs.Document.Sharing
import ContractHost.Proofs.Chaincode.Assembly
import ContractHost.Proofs.Contract.Refusals
import ContractHost.Proofs.Chaincode.Independence
import ContractHost.Proofs.Chaincode.Metadata
import ContractHost.Proofs.Contract.Payloads
import ContractHost.Proofs.Document.Shape
import ContractHost.Proofs.Document.Loading
import ContractHost.Proofs.Schema.Bounds
import ContractHost.Proofs.Assets.Runs
import ContractHost.Proofs.Schema.Acyclic
import ContractHost.Proofs.Schema.Strictness
import ContractHost.Proofs.Contract.Decoding
import ContractHost.Proofs.Contract.Delivery
import ContractHost.Proofs.Types.Validity
import ContractHost.Proofs.Contract.Outputs
import ContractHost.Proofs.Contract.Parameters
import ContractHost.Proofs.Contract.Rendering
import ContractHost.Proofs.Types.AllowList
import ContractHost.Proofs.Contract.Signatures
import ContractHost.Proofs.Contract.Building
import ContractHost.Proofs.Schema.FieldOrder
import ContractHost.Proofs.Schema.Faults
import ContractHost.Proofs.Schema.Locations
import ContractHost.Proofs.Assets.Effects
import ContractHost.Proofs.Assets.Frames
