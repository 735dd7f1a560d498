import DleynaCore.TaskProcessor.Properties

/-!
# Names for sources

`dleyna_service_task_create_source` of `service-task.c`, and a client that makes a name for each queue
that it adds. The name is in a buffer of the function; `dleyna_task_processor_add_queue` copies it.
-/

namespace DleynaCore

/-- `%d` of an `unsigned int`, which is read as an `int`. -/
def formatD (n : UInt32) : String := Int.repr n.toInt32.toInt

/-- `g_snprintf` to a buffer of `n` bytes: the string in the buffer. -/
def gSnprintfString (n : Nat) (text : String) : String := String.ofList (text.toList.take (n - 1))

/-- The text that is written for a value of `cpt`. -/
def sourceText (cpt : UInt32) : String := "source-" ++ formatD cpt

/-- `dleyna_service_task_create_source`, with the next value of `cpt`. -/
def dleynaServiceTaskCreateSource (cpt : UInt32) : String × UInt32 :=
  (gSnprintfString 20 (sourceText cpt), cpt + 1)

/-- The names that the next `k` calls make. -/
def createdSources : UInt32 → Nat → List String
  | _, 0 => []
  | cpt, k + 1 =>
    let (source, cpt') := dleynaServiceTaskCreateSource cpt
    source :: createdSources cpt' k

/-! ## A client that adds queues -/

/-- The task processor with `cpt`, and the keys of the queues that were added with a new name. -/
structure SourceWorld where
  cpt : UInt32
  world : World
  added : List TaskQueueKey

/-- One step of the client. -/
inductive SourceOp where
  /-- Make a name and add a queue for it, with any sink. -/
  | addQueue (addr : Nat) (sink : String) (flags : UInt32)
  /-- Anything else that can be done with the processor. -/
  | other (op : Op)

/-- The step adds a queue with a new name. -/
def SourceOp.isAdd : SourceOp → Bool
  | addQueue _ _ _ => true
  | other _ => false

namespace SourceWorld

/-- The key of the next queue. -/
def nextKey (w : SourceWorld) (addr : Nat) (sink : String) : TaskQueueKey :=
  { addr := addr, source := (dleynaServiceTaskCreateSource w.cpt).1, sink := sink }

/-- Make a name and add a queue for it. -/
def addQueue (w : SourceWorld) (addr : Nat) (sink : String) (flags : UInt32) : SourceWorld where
  cpt := (dleynaServiceTaskCreateSource w.cpt).2
  world := dleynaTaskProcessorAddQueue w.world (w.nextKey addr sink) flags
  added := w.added ++ [w.nextKey addr sink]

end SourceWorld

/-- The client, in a process in which no name was made before. -/
def sourcedProcessor : System SourceWorld SourceOp Fault where
  init := { cpt := 1, world := World.new, added := [] }
  guard w
    | .addQueue _ _ _ => True
    | .other op => Guard w.world op
  step w
    | .addQueue addr sink flags => .ok (w.addQueue addr sink flags)
    | .other op => (step w.world op).map fun world => { w with world := world }

/-! ## What the names should guarantee -/

/-- The names of `k` calls are different, and each has its whole text with the terminator in the
buffer. -/
structure SourcesFresh (cpt : UInt32) (k : Nat) : Prop where
  distinct : (createdSources cpt k).Nodup
  whole : createdSources cpt k = (List.range k).map fun i => sourceText (cpt + UInt32.ofNat i)
  fits : ∀ source ∈ createdSources cpt k, source.length + 1 ≤ 20

/-- Adding a queue with a new name leaves all the queues as they are that were added so before. -/
def KeepsAdded (w : SourceWorld) : Prop :=
  ∀ addr sink flags, ∀ k ∈ w.added, Unchanged k w.world (w.addQueue addr sink flags).world

end DleynaCore
