import Caf.Binary64
import Caf.Blake3
import Caf.Container.ChunkList
import Caf.Container.Header
import Caf.Container.HeaderDraft
import Caf.Container.Journal
import Caf.Container.Reader
import Caf.Container.Writer
import Caf.Decimal.Shortest
import Caf.Decimal.Text
import Caf.Desk.Basic
import Caf.Desk.Bench
import Caf.Desk.Directory
import Caf.Error.Basic
import Caf.Error.Defect
import Caf.Error.Device
import Caf.Main
import Caf.Record.Chunk
import Caf.Record.Field
import Caf.Record.FourCC
import Caf.Record.Layout
import Caf.Rounding
import Caf.Run
import Caf.Sample.ByteOrder
import Caf.Sample.Description
import Caf.Sample.Encoding
import Caf.Sample.Stream
import Caf.Store.Basic
import Caf.Store.Change
import Caf.Store.Medium
import Caf.Store.Operation
import Caf.Store.Reading
import Caf.Store.Writing
import Caf.Text.Blank
import Caf.Text.Hex
import Caf.Text.Pad
import Caf.Tool.Arguments
import Caf.Tool.JsonText
import Caf.Tool.Paint
import Caf.Tool.Report
import Caf.Tool.Run
import Caf.Tool.Silence
import Caf.Proofs.Store.Reading
import Caf.Proofs.Container.Layout
import Caf.Proofs.Container.Scanning
import Caf.Proofs.Container.Searching
import Caf.Proofs.Container.Steps
import Caf.Proofs.Container.Opening
import Caf.Proofs.Store.Writing
import Caf.Proofs.Sample.Judging
import Caf.Proofs.Sample.Describing
import Caf.Proofs.Sample.Description
import Caf.Proofs.Sample.Recoding
import Caf.Proofs.Container.Settling
import Caf.Proofs.Container.Ledger
import Caf.Proofs.Container.Listing
import Caf.Proofs.Container.Draining
import Caf.Proofs.Container.Roundtrip
import Caf.Proofs.Container.Events
import Caf.Proofs.Container.Breaking
import Caf.Proofs.Container.Tearing
import Caf.Proofs.Container.Appending
import Caf.Proofs.Container.Marking
import Caf.Proofs.Container.Chain
import Caf.Proofs.Container.Observing
import Caf.Proofs.Container.Confining
import Caf.Proofs.Container.Cutting
import Caf.Proofs.Container.Founding
import Caf.Proofs.Container.Resettling
import Caf.Proofs.Container.Digesting
import Caf.Proofs.Container.Walking
import Caf.Proofs.Container.Refusing
import Caf.Proofs.Desk.Refusing
import Caf.Proofs.Container.Serving
import Caf.Proofs.Container.Framing
import Caf.Proofs.Container.Hashing
import Caf.Proofs.Container.Damaging
import Caf.Proofs.Sample.Deciding
import Caf.Proofs.Container.Redescribing
import Caf.Proofs.Sample.Nearest
import Caf.Proofs.Container.Rating
import Caf.Proofs.Container.Drafting
import Caf.Proofs.Desk.Keeping
import Caf.Proofs.Tool.Refusing
import Caf.Proofs.Tool.Filling
import Caf.Proofs.Record.Spelling
import Caf.Proofs.Record.Inverting
import Caf.Proofs.Container.Telling
