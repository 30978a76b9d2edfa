import ChainGuest.Aptos.Context
import ChainGuest.Evm.Context
import ChainGuest.Proofs.Bridge.Balance
import ChainGuest.Proofs.Cache.Walk
import ChainGuest.Proofs.Cache.WriteOnce
import ChainGuest.Proofs.Contexts
import ChainGuest.Proofs.DataFields
import ChainGuest.Proofs.DataNumbers
import ChainGuest.Proofs.DepthLimit
import ChainGuest.Proofs.Evm.Grammar
import ChainGuest.Proofs.Evm.Refinement
import ChainGuest.Proofs.Evm.RoundTrip
import ChainGuest.Proofs.Framing
import ChainGuest.Proofs.Host.Memory
import ChainGuest.Proofs.Http.HeaderLookup
import ChainGuest.Proofs.Incident
import ChainGuest.Proofs.Joins
import ChainGuest.Proofs.Linear
import ChainGuest.Proofs.Number.Exact
import ChainGuest.Proofs.Number.HexReading
import ChainGuest.Proofs.Number.SignedWord
import ChainGuest.Proofs.Payload
import ChainGuest.Proofs.Record.Acceptance
import ChainGuest.Proofs.Script
import ChainGuest.Proofs.Text.Base64
import ChainGuest.Proofs.Text.Canonical
import ChainGuest.Proofs.Text.HexBytes
import ChainGuest.Proofs.Value.Grammar
import ChainGuest.Proofs.Wire.Integer
import ChainGuest.Script
import ChainGuest.Sui.Context
import ChainGuest.Text.Blank
