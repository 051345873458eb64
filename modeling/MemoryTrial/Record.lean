import MemoryTrial.Failure

/-! Log records, by what they report.  The level, target and text of a record are computed from it,
so that programs are compared by what they report and the wording stands in one place. -/

namespace MemoryTrial

/-- The severity of a record, most severe first. -/
inductive Level
  | error
  | warn
  | info
  | debug
  | trace
  deriving DecidableEq

namespace Level

/-- The name of a level in a written record. -/
def name : Level → String
  | error => "ERROR"
  | warn => "WARN"
  | info => "INFO"
  | debug => "DEBUG"
  | trace => "TRACE"

/-- The place of a level in the order of severity, 0 for the most severe. -/
def rank : Level → Nat
  | error => 0
  | warn => 1
  | info => 2
  | debug => 3
  | trace => 4

end Level

/-- The two requests that can be refused. -/
inductive RequestName
  | grab
  | resize
  deriving DecidableEq

/-- The name of a request in a written record. -/
def RequestName.text : RequestName → String
  | .grab => "grab"
  | .resize => "resize"

/-- Something that a part of the toolkit reports. -/
inductive Record
  /-- An arena of so many bytes was built. -/
  | arenaCreated (bytes : Nat)
  | arenaDestroyed (kind : KindId)
  /-- A request for `n` bytes needs more than the whole buffer. -/
  | grabTooLarge (n : Nat)
  /-- A request for `n` bytes was served by the node at `offset`. -/
  | grabPlaced (n offset : Nat)
  /-- No free run has the `need` bytes for a request of `n`. -/
  | grabFailed (n need : Nat)
  /-- The free node at `offset` grew from `size` to `merged` bytes. -/
  | coalesced (size merged offset : Nat)
  | released (offset size : Nat)
  /-- The node at `offset` was resized where it is. -/
  | resizedInPlace (n offset : Nat)
  /-- The node at `offset` was moved to `block`. -/
  | resizedMoved (n offset : Nat) (block : Ptr)
  /-- The heap refused a new block of `n` bytes. -/
  | heapGrabRefused (n : Nat)
  /-- The heap refused to resize the block `ptr` to `n` bytes. -/
  | heapResizeRefused (ptr : Ptr) (n : Nat)
  /-- So many blocks of a heap were live when it was torn down. -/
  | blocksLeaked (live : Nat)
  /-- A replay refused a request for `n` bytes. -/
  | forcedFailure (request : RequestName) (n : Nat)
  | replayFinished (runs checkpoints : Nat) (result : Bool)
  /-- Run number `run` of a replay, from 1, had a failing checkpoint. -/
  | runForced (run checkpoints : Nat)
  /-- A kind with the diagnostic name `name` built an instance. -/
  | instanceCreated (name : String)
  /-- An instance with the diagnostic name `name` was destroyed. -/
  | instanceDestroyed (name : String)
  | fixtureSelected (name : String)
  | noDefaultAllocator (cause : ConfigError)
  /-- An exit hook with this priority is about to run. -/
  | exitHook (priority : Int)
  /-- A violation unwinds the running operation. -/
  | fatal (cause : Violation)
  deriving DecidableEq

namespace Record

def level : Record → Level
  | arenaCreated _ | arenaDestroyed _ => .debug
  | grabTooLarge _ | grabPlaced .. | grabFailed .. | coalesced .. | released ..
  | resizedInPlace .. | resizedMoved .. => .trace
  | heapGrabRefused _ | heapResizeRefused .. => .debug
  | blocksLeaked _ => .warn
  | forcedFailure .. => .trace
  | replayFinished .. => .debug
  | runForced .. => .trace
  | instanceCreated _ | instanceDestroyed _ | fixtureSelected _ => .debug
  | noDefaultAllocator _ => .error
  | exitHook _ => .debug
  | fatal _ => .error

/-- The part of the toolkit that a record names as its source. -/
def target : Record → String
  | arenaCreated _ | arenaDestroyed _ | grabTooLarge _ | grabPlaced .. | grabFailed ..
  | coalesced .. | released .. | resizedInPlace .. | resizedMoved .. => "faultline::arena"
  | heapGrabRefused _ | heapResizeRefused .. | blocksLeaked _ => "faultline::system"
  | forcedFailure .. => "faultline::faulty"
  | replayFinished .. | runForced .. => "faultline::replay"
  | instanceCreated _ | instanceDestroyed _ => "faultline::registry"
  | fixtureSelected _ => "faultline::fixture"
  | noDefaultAllocator _ => "faultline::memory"
  | exitHook _ => "faultline::exit"
  | fatal _ => "faultline"

def text : Record → String
  | arenaCreated bytes => s!"created arena of {bytes} bytes"
  | arenaDestroyed kind => s!"destroyed arena '{kind.name}'"
  | grabTooLarge n => s!"grab({n}): larger than buffer"
  | grabPlaced n offset => s!"grab({n}) -> node {offset}"
  | grabFailed n need => s!"grab({n}): no free run of {need} bytes"
  | coalesced size merged offset => s!"coalesced {size} -> {merged} at {offset}"
  | released offset size => s!"release node {offset} ({size} bytes)"
  | resizedInPlace n offset => s!"resize({n}) in place at node {offset}"
  | resizedMoved n offset block => s!"resize({n}) moved node {offset} to {block.text}"
  | heapGrabRefused n => s!"grab({n}): heap exhausted"
  | heapResizeRefused ptr n => s!"resize({ptr.text}, {n}): heap exhausted"
  | blocksLeaked live => s!"{live} blocks leaked at teardown"
  | forcedFailure request n => s!"forced failure: {request.text}({n})"
  | replayFinished runs checkpoints result =>
    s!"replay finished after {runs} runs ({checkpoints} checkpoints, result {result})"
  | runForced run checkpoints => s!"run {run}: forced failure, {checkpoints} checkpoints"
  | instanceCreated name => s!"created allocator '{name}'"
  | instanceDestroyed name => s!"destroyed allocator '{name}'"
  | fixtureSelected name => s!"using fixture '{name}'"
  | noDefaultAllocator cause => s!"no default allocator: {cause.message}"
  | exitHook priority => s!"running exit handler (priority {priority})"
  | fatal cause => cause.message

/-- A record as it is written: level, target and text, with a space between. -/
def line (r : Record) : String := s!"{r.level.name} {r.target} {r.text}"

/-- Whether a record is at least as severe as `level`. -/
def isAtLeast (level : Level) (r : Record) : Bool := r.level.rank ≤ level.rank

end Record

/-- The records that a panic writes before it unwinds: a violation is reported, all else is not. -/
def Panic.records : Panic → List Record
  | .violation v => [.fatal v]
  | _ => []

end MemoryTrial
