import Tightbeam.Target
import Mathlib.Data.List.AList
import Mathlib.Data.List.Sort
import Mathlib.Data.String.Basic
import Mathlib.Data.Finset.Insert

/-!
# The route table

`Router` is the one assembly a node is declared with. Its verbs bind names to targets and request
names open; nothing is proved until it is exposed. A table is a map from names to routes, so only
the order in which one lists its rows depends on how it was built.
-/
namespace Tightbeam

open Texts

variable {D : Deps}

/-- Whether a node already holds anything for a proven key. -/
abbrev Knows (D : Deps) : Type := D.Moment → D.VerifyKey → Bool

inductive Access (D : Deps) where
  | Family
  | Member
  | ProvenOnly (knows : Knows D)

def Access.isMember : Access D → Bool
  | .Member => true
  | .Family => false
  | .ProvenOnly _ => false

def Access.isProvenOnly : Access D → Bool
  | .ProvenOnly _ => true
  | .Family => false
  | .Member => false

structure Route (D : Deps) where
  target : Target
  access : Access D

def Route.family (target : Target) : Route D := ⟨target, .Family⟩

/-- The source's hash map of rows. Its own order is not observable, so a row's place means nothing. -/
structure Services (D : Deps) where
  routes : AList (fun _ : String => Route D)

inductive Posture where
  | Open | Gated
  deriving DecidableEq, Repr

structure ServiceEntry where
  name : String
  posture : Posture
  deriving DecidableEq, Repr

/-- Entries in name order, as a stable sort leaves them. -/
def sortByName {α : Type} (name : α → String) (entries : List α) : List α :=
  entries.insertionSort fun a b => name a ≤ name b

namespace Services

def get (services : Services D) (name : String) : Option (Route D) := services.routes.lookup name

def names (services : Services D) : List String := sortByName id services.routes.keys

/-- The served names, as a refusal lists them. -/
def served (services : Services D) : String := ", ".intercalate services.names

def definedTwice (name : String) : String :=
  s!"service `{name}` is already defined; a name may map to only one target"

/-- One `name=target` entry of the serve grammar. -/
def extendEntry (host : Host) (services : Services D) (entry : String) : Except String (Services D) :=
  match splitOnce entry '=' with
  | none =>
    .error (s!"`{entry}` names no service. Every serve entry must be `name=target`, e.g. " ++
      "`web=tcp:127.0.0.1:8080`, `logs=file:/var/log/app.log`")
  | some (name, addr) => do
    let _ ← parseService D name
    if name ∈ services.routes then .error (definedTwice name)
    else do
      let target ← parseTarget host addr entry
      pure ⟨services.routes.insert name (Route.family target)⟩

def extendParse (host : Host) (services : Services D) (entries : List String) :
    Except String (Services D) :=
  entries.foldlM (extendEntry host) services

/-- The effective posture of each served name, off what was requested. -/
def catalog (services : Services D) (gate : Gate D.Base)
    (publicRequest publicUnsafeRequest : List String) : List ServiceEntry :=
  let entries := services.names.map fun name =>
    { name
      posture :=
        if gate.isOpen ∨ name ∈ publicRequest ∨ name ∈ publicUnsafeRequest then .Open else .Gated
      : ServiceEntry }
  sortByName ServiceEntry.name entries

def handlers (services : Services D) : List (String × Handler) :=
  services.routes.entries.filterMap fun row => match row.2.target with
    | .Handler handler => some (row.1, handler)
    | .RawStream _ => none

/-- The check a proven-only route runs on a key, and nothing for any other route. -/
def proven (services : Services D) (name : String) : Option (Knows D) :=
  match services.get name with
  | none => none
  | some route => match route.access with
    | .ProvenOnly knows => some knows
    | .Family => none
    | .Member => none

def provenNames (services : Services D) : List String :=
  services.routes.entries.filterMap fun row => if row.2.access.isProvenOnly then some row.1 else none

def memberOnlyNames (services : Services D) : List String :=
  services.routes.entries.filterMap fun row => if row.2.access.isMember then some row.1 else none

def rawStreamNames (services : Services D) : List String :=
  services.routes.entries.filterMap fun row => match row.2.target with
    | .RawStream _ => some row.1
    | .Handler _ => none

def noSuchService (services : Services D) (name : String) : String :=
  s!"no service named `{name}` to open; this node serves: {services.served}"

def rawUnderPublicGate (name : String) : String :=
  s!"`{name}` is a raw byte source (file:/fifo:/stdin:) with no auth of its own, so a public gate " ++
    "will not serve it. to serve its raw bytes to anyone, name it in the unsafe raw-stream set; " ++
    "otherwise gate it or drop it from the public set"

def keylessShell (name : String) : String :=
  s!"`{name}` has no legitimate public use: a keyless shell (or an alias of one) would hand a " ++
    "shell to anyone who reaches this node. keep it family-gated; drop it from the public set"

/-- One name of the unsafe request: it must be served, and a raw stream that a dial could open. -/
def proveUnsafeName (host : Host) (services : Services D) (proven : Finset String) (name : String) :
    Except String (Finset String) :=
  match (services.get name).map Route.target with
  | none => .error (services.noSuchService name)
  | some (.Handler _) =>
    .error (s!"`{name}` is not a raw byte source, so the unsafe raw-stream set will not open it; a " ++
      "handler is opened to anyone through the public set instead")
  | some (.RawStream stream) => do
    stream.checkOpenSource host
    pure (insert name proven)

def proveUnsafe (host : Host) (services : Services D) (requested : List String) :
    Except String (Finset String) :=
  requested.foldlM (proveUnsafeName host services) ∅

/-- One name of the public request: it must be served, of the family floor, and an open-safe handler. -/
def provePublicName (services : Services D) (proven : Finset String) (name : String) :
    Except String (Finset String) :=
  match services.get name with
  | none => .error (services.noSuchService name)
  | some route =>
    if route.access.isProvenOnly then
      .error (s!"`{name}` is proven-only, so it cannot be opened to everyone: it answers only a peer " ++
        "whose key the transport proved and this node knows. drop it from the public set")
    else if route.access.isMember then
      .error (s!"`{name}` is member-only, so it cannot be opened to everyone: a public dial carries no " ++
        "membership proof, so the route would refuse every caller while the catalog renders it " ++
        "open. drop it from the public set, or drop the member-only declaration")
    else match route.target with
      | .RawStream _ => .error (rawUnderPublicGate name)
      | .Handler _ =>
        if route.target.openSafe then .ok (insert name proven) else .error (keylessShell name)

def provePublic (services : Services D) (requested : List String) : Except String (Finset String) :=
  requested.foldlM (provePublicName services) ∅

end Services

structure Router (D : Deps) where
  services : Services D
  publicRequest : List String
  publicUnsafeRequest : List String
  gate : Gate D.Base

namespace Router

def new (gate : Gate D.Base) : Router D :=
  { services := ⟨∅⟩
    publicRequest := []
    publicUnsafeRequest := []
    gate }

/-- The one bind: a new row, or the refusal every verb shares. -/
def bind (r : Router D) (name : D.Service) (target : Target) (access : Access D) :
    Except String (Router D) :=
  if name.val ∈ r.services.routes then .error (Services.definedTwice name.val)
  else .ok { r with services := ⟨r.services.routes.insert name.val ⟨target, access⟩⟩ }

/-- A gated route never holds a proven witness, so a handler that accepts one would refuse everyone. -/
def bindGated (r : Router D) (name : D.Service) (handler : Handler) (access : Access D) :
    Except String (Router D) :=
  if handler.accepts .Proven then
    .error (s!"`{name.val}` is a proven-only handler, so a gated route would refuse every dialer: it " ++
      "answers only a proven key with no token. bind it as a proven-only service")
  else r.bind name (.Handler handler) access

def service (r : Router D) (name : D.Service) (handler : Handler) : Except String (Router D) :=
  r.bindGated name handler .Family

def memberService (r : Router D) (name : D.Service) (handler : Handler) : Except String (Router D) :=
  r.bindGated name handler .Member

/-- The compiler holds the handler to the proven-only marker. -/
def provenService (r : Router D) (name : D.Service)
    (handler : { h : Handler // h.exposure = .ProvenOnly }) (knows : Knows D) :
    Except String (Router D) :=
  r.bind name (.Handler handler) (.ProvenOnly knows)

def echo (r : Router D) (name : D.Service) : Except String (Router D) := r.service name .echo

def forward (r : Router D) (name : D.Service) (addr : String) : Except String (Router D) := do
  validateForward addr
  r.service name (.forward addr)

def rawStream (r : Router D) (name : D.Service) (source : RawStream) : Except String (Router D) :=
  r.bind name (.RawStream source) .Family

def parse (host : Host) (r : Router D) (entries : List String) : Except String (Router D) := do
  let services ← r.services.extendParse host entries
  pure { r with services }

def openPublic (r : Router D) (names : List D.Service) : Router D :=
  { r with publicRequest := names.map Subtype.val }

def openPublicUnsafe (r : Router D) (names : List D.Service) : Router D :=
  { r with publicUnsafeRequest := names.map Subtype.val }

/-- The catalog a caller serves; the row of the handler that serves it is always gated. -/
def catalog (r : Router D) (selfListing : Option D.Service) : List ServiceEntry :=
  let entries := r.services.catalog r.gate r.publicRequest r.publicUnsafeRequest
  match selfListing with
  | none => entries
  | some name => sortByName ServiceEntry.name (entries ++ [⟨name.val, .Gated⟩])

end Router

/-- One call of a builder verb. -/
inductive Verb (D : Deps) where
  | service (name : D.Service) (handler : Handler)
  | memberService (name : D.Service) (handler : Handler)
  | provenService (name : D.Service) (handler : { h : Handler // h.exposure = .ProvenOnly })
      (knows : Knows D)
  | echo (name : D.Service)
  | forward (name : D.Service) (addr : String)
  | rawStream (name : D.Service) (source : RawStream)
  | parse (entries : List String)
  | openPublic (names : List D.Service)
  | openPublicUnsafe (names : List D.Service)

def Router.apply (host : Host) (r : Router D) : Verb D → Except String (Router D)
  | .service name handler => r.service name handler
  | .memberService name handler => r.memberService name handler
  | .provenService name handler knows => r.provenService name handler knows
  | .echo name => r.echo name
  | .forward name addr => r.forward name addr
  | .rawStream name source => r.rawStream name source
  | .parse entries => r.parse host entries
  | .openPublic names => .ok (r.openPublic names)
  | .openPublicUnsafe names => .ok (r.openPublicUnsafe names)

/-- A router over `gate`, built by these verbs in this order. -/
def Router.build (host : Host) (gate : Gate D.Base) (verbs : List (Verb D)) : Except String (Router D) :=
  verbs.foldlM (Router.apply host) (Router.new gate)

end Tightbeam
