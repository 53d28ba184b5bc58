import Tightbeam.Library.Octets

/-!
# The stream protocol

The request and response frames that open every stream. Each read and write follows the source step
by step, so a failed one says which octets it had already taken or put.
-/
namespace Tightbeam

open Octets

/-- `refusalDetail` is the error bifrost gives for octets that are no detail. -/
inductive IoError where
  | unexpectedEof
  | other : String → IoError
  | refusalDetail
  deriving DecidableEq, Repr

/-- `text` is never above 1024 octets: bifrost builds a detail in no other way. -/
structure RefusalDetail where
  text : String
  bounded : (utf8 text).length ≤ 1024
  deriving DecidableEq

def RefusalDetail.maxLen : Nat := 1024

/-- bifrost's refusal classes. It is non-exhaustive there, so a class this build has no code for is
`unnamed`. -/
inductive Refusal where
  | notAdmitted
  | badRequest (detail : RefusalDetail)
  | unavailable (detail : RefusalDetail)
  | unnamed (text : String)
  deriving DecidableEq

/-- One lowercase hexadecimal digit. -/
def hexDigit (n : Nat) : Char := if n < 10 then Char.ofNat (48 + n) else Char.ofNat (87 + n)

def hexDigits (b : UInt8) : String := String.ofList [hexDigit (b.toNat / 16), hexDigit (b.toNat % 16)]

/-- The source's `{:#04x}`. -/
def hexOctet (b : UInt8) : String := "0x" ++ hexDigits b

def identity : List UInt8 := [0x54, 0x42]

structure WireVersion where
  first : UInt8
  second : UInt8
  deriving DecidableEq, Repr

def WireVersion.asBytes (v : WireVersion) : List UInt8 := [v.first, v.second]

def version : WireVersion := ⟨0x30, 0x34⟩

def isAsciiUppercase (b : UInt8) : Bool := 0x41 ≤ b && b ≤ 0x5a

/-- The standard library's `escape_ascii`, one octet at a time. -/
def escapeAscii (b : UInt8) : String :=
  if b = 0x09 then "\\t"
  else if b = 0x0d then "\\r"
  else if b = 0x0a then "\\n"
  else if b = 0x27 then "\\'"
  else if b = 0x22 then "\\\""
  else if b = 0x5c then "\\\\"
  else if 0x20 ≤ b && b ≤ 0x7e then String.ofList [Char.ofNat b.toNat]
  else "\\x" ++ hexDigits b

def WireVersion.display (v : WireVersion) : String :=
  String.join ((identity ++ v.asBytes).map escapeAscii)

inductive RequestReadError where
  | foreign
  | version (peer : WireVersion)
  | io (error : IoError)
  deriving DecidableEq

def RequestReadError.display : RequestReadError → String
  | .foreign => "not a tightbeam stream"
  | .version peer =>
    "tightbeam wire version mismatch: the request is " ++ peer.display ++ ", this host speaks " ++
      Tightbeam.version.display ++ "; run the same release at both ends"
  | .io _ => "the request frame failed to read"

/-- The version half, after the identity. A capital first octet continues the identity run. -/
def WireVersion.read : Reader RequestReadError WireVersion := do
  let bytes ← Reader.exactly (.io .unexpectedEof) 2
  match bytes with
  | [afterIdentity, last] =>
    if isAsciiUppercase afterIdentity then Reader.fail .foreign else pure ⟨afterIdentity, last⟩
  | _ => Reader.fail (.io .unexpectedEof)

def readStr : Reader IoError String := do
  let len ← readU16 .unexpectedEof
  let bytes ← Reader.exactly .unexpectedEof len
  match fromUtf8? bytes with
  | some text => pure text
  | none => Reader.fail (.other "invalid utf-8 in string")

def readOpt : Reader IoError (Option String) := do
  let present ← Reader.octet .unexpectedEof
  if present = 0 then pure none
  else if present = 1 then do
    let text ← readStr
    pure (some text)
  else Reader.fail (.other ("unknown presence tag " ++ hexOctet present))

def writeStr (value : String) : Sink IoError Unit :=
  let bytes := utf8 value
  if bytes.length ≤ 65535 then do
    Sink.writeAll (beU16 bytes.length)
    Sink.writeAll bytes
  else Sink.fail (.other "string too long")

def writeOpt : Option String → Sink IoError Unit
  | some value => do
    Sink.writeAll [1]
    writeStr value
  | none => Sink.writeAll [0]

structure Request where
  service : String
  capability : Option String
  membership : Option String
  deriving DecidableEq

def Request.write (r : Request) : Sink IoError Unit := do
  Sink.writeAll identity
  Sink.writeAll version.asBytes
  writeStr r.service
  writeOpt r.capability
  writeOpt r.membership

/-- The preamble is parsed in two halves, so a foreign stream and another version stay two facts. -/
def Request.read : Reader RequestReadError Request := do
  let head ← Reader.exactly (.io .unexpectedEof) identity.length
  if head ≠ identity then Reader.fail .foreign
  else do
    let peer ← WireVersion.read
    if peer ≠ version then Reader.fail (.version peer)
    else do
      let service ← Reader.mapError .io readStr
      let capability ← Reader.mapError .io readOpt
      let membership ← Reader.mapError .io readOpt
      pure ⟨service, capability, membership⟩

/-- The one unreadable frame a peer can act on is the version mismatch. `bounded` is bifrost's. -/
def RequestReadError.refusal (bounded : String → RefusalDetail) (e : RequestReadError) : Option Refusal :=
  match e with
  | .version _ => some (.badRequest (bounded e.display))
  | .foreign => none
  | .io _ => none

inductive Response where
  | ok
  | refused (refusal : Refusal)
  deriving DecidableEq

def refusalCode : Refusal → Except IoError (UInt8 × Option RefusalDetail)
  | .notAdmitted => .ok (0, none)
  | .badRequest detail => .ok (1, some detail)
  | .unavailable detail => .ok (2, some detail)
  | .unnamed text => .error (.other ("no tightbeam refusal code for this class: " ++ text))

def writeDetail (detail : RefusalDetail) : Sink IoError Unit :=
  let bytes := utf8 detail.text
  if bytes.length ≤ 65535 then do
    Sink.writeAll (beU16 bytes.length)
    Sink.writeAll bytes
  else Sink.fail (.other "refusal detail too long")

def Response.write : Response → Sink IoError Unit
  | .ok => Sink.writeAll [0]
  | .refused refusal =>
    match refusalCode refusal with
    | .error e => Sink.fail e
    | .ok (code, detail) => do
      Sink.writeAll [1, code]
      match detail with
      | some detail => writeDetail detail
      | none => pure ()

def RefusalDetail.tryFrom (bytes : List UInt8) : Option RefusalDetail :=
  match fromUtf8? bytes with
  | some text => if h : (utf8 text).length ≤ 1024 then some ⟨text, h⟩ else none
  | none => none

/-- An over-cap claim is rejected before its octets are read. -/
def readDetail : Reader IoError RefusalDetail := do
  let len ← readU16 .unexpectedEof
  if RefusalDetail.maxLen < len then Reader.fail (.other "refusal detail too long")
  else do
    let bytes ← Reader.exactly .unexpectedEof len
    match RefusalDetail.tryFrom bytes with
    | some detail => pure detail
    | none => Reader.fail .refusalDetail

def Response.read : Reader IoError Response := do
  let tag ← Reader.octet .unexpectedEof
  if tag = 0 then pure .ok
  else if tag = 1 then do
    let code ← Reader.octet .unexpectedEof
    if code = 0 then pure (.refused .notAdmitted)
    else if code = 1 then do
      let detail ← readDetail
      pure (.refused (.badRequest detail))
    else if code = 2 then do
      let detail ← readDetail
      pure (.refused (.unavailable detail))
    else Reader.fail (.other ("unknown refusal code " ++ hexOctet code))
  else Reader.fail (.other ("unknown response tag " ++ hexOctet tag))

end Tightbeam
