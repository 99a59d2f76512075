import PayrollSeal.Bundle.Json
import PayrollSeal.Opening.Json
import PayrollSeal.Sample
import PayrollSeal.Proofs.Domain
import PayrollSeal.Proofs.Merkle.Messages
import PayrollSeal.Proofs.Merkle.Levels
import PayrollSeal.Proofs.Merkle.Position
import PayrollSeal.Proofs.Merkle.Completeness
import PayrollSeal.Proofs.Merkle.Walk
import PayrollSeal.Proofs.Merkle.Soundness
import PayrollSeal.Proofs.Merkle.Tampering
import PayrollSeal.Proofs.Merkle.Bytes
import PayrollSeal.Proofs.Chunk
import PayrollSeal.Proofs.Layout
import PayrollSeal.Proofs.Framing
import PayrollSeal.Proofs.Writes
import PayrollSeal.Proofs.Document.Order
import PayrollSeal.Proofs.Document.Canonical
import PayrollSeal.Proofs.Statement.Leaves
import PayrollSeal.Proofs.Statement.Fields
import PayrollSeal.Proofs.Statement.Root
import PayrollSeal.Proofs.Opening.Honest
import PayrollSeal.Proofs.Opening.Depth
import PayrollSeal.Proofs.Document.Encodable
import PayrollSeal.Proofs.Statement.Encodable
import PayrollSeal.Proofs.Notary.Checks
import PayrollSeal.Proofs.Notary.Causes
import PayrollSeal.Proofs.Notary.Agreement
import PayrollSeal.Proofs.RecordId
import PayrollSeal.Proofs.Notary.Records
import PayrollSeal.Proofs.Notary.Accepted
import PayrollSeal.Proofs.Decimal
import PayrollSeal.Proofs.Hex
import PayrollSeal.Proofs.Digest
import PayrollSeal.Proofs.Json.Lexer
import PayrollSeal.Proofs.Json.Builder
import PayrollSeal.Proofs.Json.Rearranged
import PayrollSeal.Proofs.Json.Fields
import PayrollSeal.Proofs.Json.Scalars
import PayrollSeal.Proofs.Document.Json
import PayrollSeal.Proofs.Transport
import PayrollSeal.Proofs.Document.Slots
import PayrollSeal.Proofs.Document.Keys
import PayrollSeal.Proofs.Statement.Rejected
import PayrollSeal.Proofs.Sample
