import ObjectMeta.Command.MemoryHost
import ObjectMeta.Main
import ObjectMeta.Operation.Machine
import ObjectMeta.Token.Edit
import ObjectMeta.Proofs.Token.Layout
import ObjectMeta.Proofs.Concurrency.History
import ObjectMeta.Proofs.Lock.Guards
import ObjectMeta.Proofs.Operation.Discipline
import ObjectMeta.Proofs.Operation.Guarded
import ObjectMeta.Proofs.Concurrency.Order
import ObjectMeta.Proofs.Concurrency.Replay
import ObjectMeta.Proofs.Concurrency.Serializability
import ObjectMeta.Proofs.Concurrency.Sessions
import ObjectMeta.Proofs.Operation.Alone
import ObjectMeta.Proofs.Operation.KeyHistory
import ObjectMeta.Proofs.Operation.LookUp
import ObjectMeta.Proofs.Token.Verification
import ObjectMeta.Proofs.Lock.Outstanding
import ObjectMeta.Proofs.Operation.Nesting
import ObjectMeta.Proofs.Concurrency.Progress
import ObjectMeta.Proofs.Concurrency.Atomicity
import ObjectMeta.Proofs.Token.Minting
import ObjectMeta.Proofs.Token.Provenance
import ObjectMeta.Proofs.Operation.Yields
import ObjectMeta.Proofs.Operation.Credentials
import ObjectMeta.Proofs.Concurrency.HandedOut
import ObjectMeta.Proofs.Concurrency.Machine
import ObjectMeta.Proofs.Record.Size
import ObjectMeta.Proofs.Operation.Alike
import ObjectMeta.Proofs.Operation.Transparency
import ObjectMeta.Proofs.Operation.Placement
import ObjectMeta.Proofs.Concurrency.BlockIds
import ObjectMeta.Proofs.Record.Exact
import ObjectMeta.Proofs.Operation.LockStack
import ObjectMeta.Proofs.Concurrency.Settling
import ObjectMeta.Proofs.Concurrency.Exclusion
import ObjectMeta.Proofs.Operation.Refusal
import ObjectMeta.Proofs.Concurrency.Representation
import ObjectMeta.Proofs.Lock.WakeUp
import ObjectMeta.Proofs.Concurrency.Waiting
import ObjectMeta.Proofs.Operation.Creation
import ObjectMeta.Proofs.Concurrency.Registry
import ObjectMeta.Proofs.Operation.Fencing
import ObjectMeta.Proofs.Token.Identity
import ObjectMeta.Proofs.Operation.Minted
import ObjectMeta.Proofs.Concurrency.Tokenless
import ObjectMeta.Proofs.Operation.Asking
import ObjectMeta.Proofs.Text.Hex
import ObjectMeta.Proofs.Command.FileTree
import ObjectMeta.Proofs.Command.Tasks
import ObjectMeta.Proofs.Command.Host
import ObjectMeta.Proofs.Command.PrintedTokens
import ObjectMeta.Proofs.Token.Truncation
import ObjectMeta.Proofs.Token.Validity
import ObjectMeta.Proofs.Token.Wire
import ObjectMeta.Proofs.Concurrency.Naming
import ObjectMeta.Proofs.Lock.Reentrancy
import ObjectMeta.Proofs.Store.LastWrite
import ObjectMeta.Proofs.Text.Blank
import ObjectMeta.Proofs.Command.SigningKey
import ObjectMeta.Proofs.Record.Appending
