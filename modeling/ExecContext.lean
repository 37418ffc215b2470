import ExecContext.Branch
import ExecContext.ByteString.Basic
import ExecContext.ByteString.Case
import ExecContext.ByteString.Utf8
import ExecContext.ByteString.Utf8.Lemmas
import ExecContext.Class.Basic
import ExecContext.Class.Filter
import ExecContext.Class.Property
import ExecContext.Class.Purpose
import ExecContext.Class.Reading
import ExecContext.Class.Step
import ExecContext.Constant.Core
import ExecContext.Constant.Error
import ExecContext.Constant.Keyword
import ExecContext.Constant.Step
import ExecContext.Constant.Table
import ExecContext.Context.Basic
import ExecContext.Context.Config
import ExecContext.Context.Lemmas
import ExecContext.Context.Step
import ExecContext.Event
import ExecContext.Frame.Call
import ExecContext.Frame.Saved
import ExecContext.Frame.Stack
import ExecContext.Frame.Step
import ExecContext.Function
import ExecContext.Outcome
import ExecContext.Proofs.Branch.Lineage
import ExecContext.Proofs.ByteString.Case
import ExecContext.Proofs.ByteString.Decoding
import ExecContext.Proofs.ByteString.Display
import ExecContext.Proofs.Class.Conjunction
import ExecContext.Proofs.Class.Layout
import ExecContext.Proofs.Class.Passes
import ExecContext.Proofs.Class.PropertyEquality
import ExecContext.Proofs.Class.Questions
import ExecContext.Proofs.Constant.Alike
import ExecContext.Proofs.Constant.Keywords
import ExecContext.Proofs.Constant.Meaning
import ExecContext.Proofs.Constant.Rejection
import ExecContext.Proofs.Constant.WriteOnce
import ExecContext.Proofs.Context.Active
import ExecContext.Proofs.Context.Builder
import ExecContext.Proofs.Context.Constants
import ExecContext.Proofs.Context.FrameLog
import ExecContext.Proofs.Context.Futile
import ExecContext.Proofs.Context.Source
import ExecContext.Proofs.Context.Stacks
import ExecContext.Proofs.Context.Symbols
import ExecContext.Proofs.Frame.Handle
import ExecContext.Proofs.Frame.Ledger
import ExecContext.Proofs.Run.LastWrite
import ExecContext.Proofs.Run.OneStep
import ExecContext.Proofs.Run.Transcript
import ExecContext.Proofs.Run.View
import ExecContext.Proofs.Symbol.Accounts
import ExecContext.Proofs.Symbol.Alike
import ExecContext.Proofs.Symbol.Building
import ExecContext.Proofs.Symbol.Constructors
import ExecContext.Proofs.Symbol.Copies
import ExecContext.Proofs.Symbol.History
import ExecContext.Proofs.Symbol.Keys
import ExecContext.Proofs.Table.Order
import ExecContext.Proofs.Value.Comparison
import ExecContext.Proofs.Value.Equality
import ExecContext.Proofs.Value.Number
import ExecContext.Proofs.World.Built
import ExecContext.Proofs.World.Conservation
import ExecContext.Proofs.World.ConstructorIdentity
import ExecContext.Proofs.World.DeclarationLog
import ExecContext.Proofs.World.DepthLog
import ExecContext.Proofs.World.Detached
import ExecContext.Proofs.World.Failure
import ExecContext.Proofs.World.Isolation
import ExecContext.Proofs.World.Nesting
import ExecContext.Proofs.World.Product
import ExecContext.Proofs.World.RejectionTexts
import ExecContext.Shared
import ExecContext.Symbol.Lemmas
import ExecContext.Symbol.Registry
import ExecContext.Symbol.Step
import ExecContext.Table.Basic
import ExecContext.Table.Lemmas
import ExecContext.Value.Basic
import ExecContext.Value.Binary64
import ExecContext.World
import ExecContext.Proofs.Symbol.Kinds
