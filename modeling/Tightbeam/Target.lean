import Tightbeam.Handler
import Tightbeam.Library.Texts

/-!
# Targets and the grammar that names them

A target is a handler bound by value or a raw byte source. The grammar gives every form a scheme, so
an address it does not know is refused by name and never guessed at.
-/
namespace Tightbeam

open Texts

/-- What `lstat` says of a path's final component. -/
inductive FileType where
  | regular | fifo | symlink | directory | blockDevice | charDevice | socket | unknown
  deriving DecidableEq, Repr

def describeMetadataType : FileType → String
  | .blockDevice => "a block device"
  | .charDevice => "a character device"
  | .directory => "a directory"
  | .symlink => "a symlink"
  | .socket => "a socket"
  | .fifo => "a FIFO"
  | .regular => "a regular file"
  | .unknown => "an unknown type"

/-- `symlink_metadata` fails for a path that is not there, or for another reason. -/
inductive StatError where
  | notFound | other
  deriving DecidableEq, Repr

/-- What the host system answers while a node is assembled. -/
structure Host where
  lstat : String → Except StatError FileType
  absolute : String → String
  stdinIsATty : Bool

/-- A host with no files and no terminal. -/
def Host.empty : Host := ⟨fun _ => .error .notFound, id, false⟩

inductive Kind where
  | File | Fifo
  deriving DecidableEq, Repr

inductive RawSource where
  | Path (path : String)
  | Stdin
  deriving DecidableEq, Repr

/-- A raw stream's source: a path opened per dial, the `stdin:` seat, or a fan-out, which keeps the FIFO it
opens (none for standard input) and records the source a banner names for it. -/
inductive RawStream where
  | Path (path : String) (kind : Kind)
  | Stdin
  | Lossy (fifo : Option String) (source : RawSource)
  deriving DecidableEq, Repr

/-- The serve-time twin of the guarded open. A path that is not there yet is allowed. -/
def checkOpenPath (host : Host) (path : String) (kind : Kind) : Except String Unit :=
  match host.lstat path with
  | .error .notFound => .ok ()
  | .error .other => .error s!"cannot stat {path}"
  | .ok fileType =>
    if fileType = .symlink then
      .error (s!"{path} is a symlink; a `file:`/`fifo:` target is opened with O_NOFOLLOW and will not " ++
        "follow a symlink at the final component")
    else match kind with
      | .File =>
        if fileType = .regular ∨ fileType = .fifo then .ok ()
        else .error (s!"{path} is not a regular file or a FIFO ({describeMetadataType fileType}); a " ++
          "`file:` target refuses devices, directories, and sockets")
      | .Fifo =>
        if fileType = .fifo then .ok ()
        else .error (s!"{path} is not a FIFO ({describeMetadataType fileType}); a `fifo:` target opens " ++
          "a named pipe (make one with `mkfifo`)")

namespace RawStream

def path (path : String) (kind : Kind) (entry scheme : String) : Except String RawStream :=
  if path = "" then
    .error (s!"`{entry}` names a `{scheme}:` target with no path; write `{scheme}:<path>`, e.g. " ++
      s!"`pipe={scheme}:/tmp/beam`")
  else .ok (.Path path kind)

def file (path entry : String) : Except String RawStream := RawStream.path path .File entry "file"

def fifo (host : Host) (path entry : String) (lossy : Bool) : Except String RawStream :=
  if path = "" then
    .error (s!"`{entry}` names a `fifo:` target with no path; write `fifo:<path>`, e.g. " ++
      "`pipe=fifo:/tmp/beam`")
  else if lossy then .ok (.Lossy (some path) (.Path (host.absolute path)))
  else RawStream.path path .Fifo entry "fifo"

def stdin (host : Host) (lossy : Bool) : Except String RawStream :=
  if host.stdinIsATty then
    .error ("stdin: has no pipe to read: fd 0 is a terminal, so it would consume your keystrokes. " ++
      "pipe a producer in instead of serving a terminal")
  else .ok (if lossy then .Lossy none .Stdin else .Stdin)

def rawSource (host : Host) : RawStream → RawSource
  | .Path path _ => .Path (host.absolute path)
  | .Stdin => .Stdin
  | .Lossy _ source => source

def checkOpenSource (host : Host) : RawStream → Except String Unit
  | .Path path kind => checkOpenPath host path kind
  | .Stdin => .ok ()
  | .Lossy _ (.Path path) => checkOpenPath host path .Fifo
  | .Lossy _ .Stdin => .ok ()

end RawStream

inductive Target where
  | Handler (handler : Tightbeam.Handler)
  | RawStream (stream : Tightbeam.RawStream)
  deriving DecidableEq, Repr

inductive TargetKind where
  | Handler | RawStream
  deriving DecidableEq, Repr

namespace Target

/-- A raw stream is never openable here: it opens only through the unsafe overlay. -/
def openSafe : Target → Bool
  | .Handler handler => handler.openSafe
  | .RawStream _ => false

def kind : Target → TargetKind
  | .Handler _ => .Handler
  | .RawStream _ => .RawStream

end Target

def targetSchemes : String :=
  "`tcp:<host>:<port>`, `unix:<path>`, `file:<path>`, `fifo:<path>`, `stdin:`, `echo:`"

def noArgument (scheme rest entry : String) : Except String Unit :=
  if rest = "" then .ok ()
  else .error s!"`{scheme}:` takes no argument, but `{entry}` gives it `{rest}`"

/-- A non-empty host and a port, split from the right, or a non-empty path. -/
def isEndpoint (addr : String) : Bool :=
  match splitOnce addr ':' with
  | some ("tcp", rest) => match rsplitOnce rest ':' with
    | some (host, port) => host ≠ "" ∧ (parseUnsigned 65535 port).isSome
    | none => false
  | some ("unix", path) => path ≠ ""
  | _ => false

def validateForward (addr : String) : Except String Unit :=
  if isEndpoint addr then .ok ()
  else .error
    s!"`{addr}` is not a local stream endpoint; expected `tcp:<host>:<port>` or `unix:<path>`"

/-- The address without a trailing `+lossy`, and whether there was one. -/
def stripLossy (addr : String) : String × Bool :=
  match stripSuffix addr "+lossy" with
  | some base => (base, true)
  | none => (addr, false)

def parseTarget (host : Host) (addr entry : String) : Except String Target :=
  let (addr, lossy) := stripLossy addr
  match splitOnce addr ':' with
  | none =>
    .error s!"`{entry}` names no target scheme. Every target is `<scheme>:<rest>`: {targetSchemes}"
  | some (scheme, rest) =>
    if lossy ∧ ¬ (scheme = "stdin" ∨ scheme = "fifo") then
      .error ("`+lossy` (raw-stream fan-out) is only valid on a `stdin:`/`fifo:` source, not " ++
        s!"`{scheme}:` (`{entry}`); drop it, or point the service at a live single-writer source")
    else if scheme = "tcp" ∨ scheme = "unix" then do
      validateForward addr
      pure (.Handler (.forward addr))
    else if scheme = "file" then do
      let stream ← RawStream.file rest entry
      pure (.RawStream stream)
    else if scheme = "fifo" then do
      let stream ← RawStream.fifo host rest entry lossy
      pure (.RawStream stream)
    else if scheme = "stdin" then do
      noArgument scheme rest entry
      let stream ← RawStream.stdin host lossy
      pure (.RawStream stream)
    else if scheme = "echo" then do
      noArgument scheme rest entry
      pure (.Handler .echo)
    else .error (s!"`{entry}` names an unknown target scheme `{scheme}:`. Every target is " ++
      s!"`<scheme>:<rest>`: {targetSchemes}")

end Tightbeam
