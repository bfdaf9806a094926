import Caf.Container.ChunkList
import Caf.Container.Reader
import Caf.Container.Writer
import Caf.Store.Change

/-!
# One store, one handle

A bench holds a store and at most one handle on it, a reader or a writer. Opening something else
lets go of the old handle first, and a writer that is let go of is settled. Operations that need
no handle work on the same store, and on the same cursor, as the open handle does.
-/

namespace Caf

/-- A store with at most one handle. -/
inductive Bench where
  /-- No handle is open. -/
  | idle (store : Store)
  /-- A reader is open. -/
  | reading (reader : Reader) (store : Store)
  /-- A writer is open; it owns the store. -/
  | writing (writer : Writer)

namespace Bench

/-- The store. -/
def store : Bench → Store
  | idle store => store
  | reading _ store => store
  | writing writer => writer.store

/-- The bench after `change` has been made to its store; the handle stays as it is. -/
def mapStore (change : Store → Store) : Bench → Bench
  | idle store => idle (change store)
  | reading reader store => reading reader (change store)
  | writing writer => writing { writer with store := change writer.store }

/-- The bench after a `change` from outside. -/
def change (bench : Bench) (change : Store.Change) : Bench :=
  bench.mapStore (·.change change)

/-- Lets go of the handle. -/
def release : Bench → Store
  | idle store => store
  | reading _ store => store
  | writing writer => writer.release

/-- A result without the state that came with it. -/
def outcome {ε σ α : Type} : EStateM.Result ε σ α → Except ε α × σ
  | .ok x s => (.ok x, s)
  | .error e s => (.error e, s)

/-- Runs an `operation` that needs no handle. -/
def onStore {α : Type} (operation : CafM α) (bench : Bench) : Except Error α × Bench :=
  let (result, store) := outcome (operation bench.store)
  (result, bench.mapStore fun _ => store)

/-- Runs an `operation` of the open reader, if there is one. -/
def onReader {α : Type} (operation : Reader → CafM α) :
    Bench → Option (Except Error α) × Bench
  | reading reader store =>
    let (result, store) := outcome (operation reader store)
    (some result, reading reader store)
  | bench => (none, bench)

/-- Asks the open reader for what `call` says, if there is one. -/
def askReader (call : Reader.Call) : Bench → Option (Except Error Reader.Answer) × Bench :=
  onReader fun reader => reader.call call

/-- Runs an `operation` of the open writer, if there is one. -/
def onWriter {α : Type} (operation : WriterM α) : Bench → Option (Except Error α) × Bench
  | writing writer =>
    let (result, writer) := outcome (operation writer)
    (some result, writing writer)
  | bench => (none, bench)

/-- Asks the open writer for what `call` says, if there is one. -/
def askWriter (call : Writer.Call) : Bench → Option (Except Error Writer.Answer) × Bench :=
  onWriter (Writer.call call)

/-- Puts a new `handle` on `store`, or none when `operation` fails. -/
def start {α : Type} (operation : CafM α) (handle : α → Store → Bench) (store : Store) :
    Except Error Unit × Bench :=
  match operation store with
  | .ok x store => (.ok (), handle x store)
  | .error e store => (.error e, idle store)

/-- Opens the container for reading. -/
def openForReading (bench : Bench) : Except Error Unit × Bench :=
  start Reader.ofStore reading bench.release

/-- Starts a new stream. -/
def create (request : StreamRequest) (bench : Bench) : Except Error Unit × Bench :=
  start (Writer.create request) (fun writer _ => writing writer) bench.release

/-- Continues the stream. -/
def append (request : StreamRequest) (bench : Bench) : Except Error Unit × Bench :=
  start (Writer.append request) (fun writer _ => writing writer) bench.release

/-- Ends the stream of the open writer, if there is one. -/
def close : Bench → Option (Except Error Unit) × Bench
  | writing writer =>
    let (result, store) := writer.close
    (some result, idle store)
  | bench => (none, bench)

end Bench

end Caf
