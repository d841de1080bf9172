import Mathlib.Data.List.DropRight
import Mathlib.Data.List.Infix
import OsAgent.Library.Check
import OsAgent.Library.Script

/-!
# Resource scopes

A capability is granted for a scope of resources, and a resource is named by a URI. The same resource
has several spellings, so the kernel compares normalized names: `normalizeResource` reads the name
with the URL parser of the platform, and writes the parsed URL back without its trailing slashes. The
parser is a parameter. `UrlParser.Lawful` states what the URL standard says about it, as far as
normalization rests on it.
-/

namespace OsAgent.Capability

open OsAgent.Library

/-! ## Texts -/

/-- `String.prototype.trim`. -/
def trim (s : String) : String :=
  String.ofList ((s.toList.dropWhile isTrimmed).rdropWhile isTrimmed)

/-- `replace(/\/+$/u, '')`. -/
def stripSlashes (s : String) : String := String.ofList (s.toList.rdropWhile (· = '/'))

/-- `String.prototype.includes`. -/
def includes (s part : String) : Prop := part.toList <:+: s.toList

/-- `String.prototype.startsWith`. -/
def startsWith (s start : String) : Prop := start.toList <+: s.toList

/-- `String.prototype.endsWith`. -/
def endsWith (s tail : String) : Prop := tail.toList <:+ s.toList

instance (s part : String) : Decidable (includes s part) := inferInstanceAs (Decidable (_ <:+: _))

instance (s start : String) : Decidable (startsWith s start) :=
  inferInstanceAs (Decidable (_ <+: _))

instance (s tail : String) : Decidable (endsWith s tail) := inferInstanceAs (Decidable (_ <:+ _))

/-! ## Scopes -/

/-- The resources that a capability is for. -/
inductive ResourceScope where
  | all
  | exact (resource : String)
  | subtree (resource : String)
deriving DecidableEq, Repr

/-- A capability that is asked for. -/
structure CapabilityRequest where
  capability : String
  scope : ResourceScope
  reason : Option String := none
deriving DecidableEq, Repr

/-- A capability that is asked for, or only its name. -/
inductive CapabilityInput where
  | name (capability : String)
  | request (request : CapabilityRequest)
deriving DecidableEq, Repr

/-- The errors of the capability kernel. A delegation that is refused has a class of its own. -/
inductive CapabilityError where
  | error (message : String)
  | delegation (capability message : String)
deriving DecidableEq, Repr

/-- Whether a granted scope covers a requested one. -/
def scopeContains : ResourceScope → ResourceScope → Bool
  | .all, _ => true
  | _, .all => false
  | .exact granted, .exact requested => requested = granted
  | .exact _, .subtree _ => false
  | .subtree granted, .exact requested | .subtree granted, .subtree requested =>
    let subtreePrefix := if endsWith granted "/" then granted else granted ++ "/"
    requested = granted || startsWith requested subtreePrefix

/-- The key under which a list of requests is freed of duplicates. -/
def capabilityRequestKey (request : CapabilityRequest) : String :=
  match request.scope with
  | .all => request.capability ++ "\u0000" ++ "all" ++ "\u0000" ++ "*"
  | .exact resource => request.capability ++ "\u0000" ++ "exact" ++ "\u0000" ++ resource
  | .subtree resource => request.capability ++ "\u0000" ++ "subtree" ++ "\u0000" ++ resource

/-! ## The URL parser -/

/-- The parts of a parsed URL that normalization reads. -/
structure Url where
  href : String
  protocol : String
  username : String := ""
  password : String := ""
  pathname : String
  search : String := ""
  hash : String := ""
deriving DecidableEq, Repr

/-- The URL class of the platform: its constructor, which throws on a text that is no URL, and the
setter of a URL's path. -/
structure UrlParser where
  parse : String → Option Url
  setPathname : Url → String → Url

/-- No credentials, query, or fragment. -/
def Url.Plain (u : Url) : Prop :=
  u.username = "" ∧ u.password = "" ∧ u.search = "" ∧ u.hash = ""

instance (u : Url) : Decidable u.Plain := inferInstanceAs (Decidable (_ ∧ _))

/-- The schemes that the URL standard calls special. A URL of one of these never has an empty path. -/
def isSpecial (protocol : String) : Bool :=
  protocol ∈ ["http:", "https:", "ws:", "wss:", "ftp:", "file:"]

/-- The URL as a resource name: without its trailing slashes, unless its path is the root. -/
def Url.resource (u : Url) : String :=
  if u.pathname = "/" then u.href else stripSlashes u.href

section

variable (p : UrlParser)

/-- `new URL(input)`, with the error that it throws replaced. -/
def parseUrl (input : String) : Except CapabilityError Url :=
  match p.parse input with
  | some url => .ok url
  | none => .error (.error ("Capability resource is not a valid URI: " ++ input))

/-- Reads a resource name, and spells the root of a workspace with its slash. -/
def parseResource (resource : String) : Except CapabilityError Url := do
  let input := trim resource
  require (input ≠ "") (.error "Capability resource must not be empty.")
  require (includes input "://")
    (.error ("Capability resource must use a URI-style name: " ++ input))
  let parsed ← parseUrl p input
  require parsed.Plain
    (.error "Capability resources cannot contain credentials, queries, or fragments.")
  -- The resolver of workspace paths accepts both spellings of the root.
  if parsed.protocol = "workspace:" ∧ parsed.pathname = "" then
    pure (p.setPathname parsed "/")
  else
    pure parsed

/-- The name under which a resource is compared. -/
def normalizeResource (resource : String) : Except CapabilityError String := do
  let parsed ← parseResource p resource
  pure parsed.resource

/-- A scope with its resource normalized. -/
def normalizeResourceScope : ResourceScope → Except CapabilityError ResourceScope
  | .all => .ok .all
  | .exact resource => do
    let resource ← normalizeResource p resource
    pure (.exact resource)
  | .subtree resource => do
    let resource ← normalizeResource p resource
    pure (.subtree resource)

/-- A capability's name without the white space around it. -/
def requireCapabilityName (capability : String) : Except CapabilityError String := do
  let normalized := trim capability
  require (normalized ≠ "") (.error "Capability name must not be empty.")
  pure normalized

/-- A request with its name and its scope normalized. A bare name asks for all resources. -/
def normalizeCapabilityInput : CapabilityInput → Except CapabilityError CapabilityRequest
  | .name capability => do
    let capability ← requireCapabilityName capability
    pure ⟨capability, .all, none⟩
  | .request input => do
    let capability ← requireCapabilityName input.capability
    let scope ← normalizeResourceScope p input.scope
    pure ⟨capability, scope, input.reason⟩

/-- What the URL standard says about the parser, as far as normalization rests on it. -/
structure UrlParser.Lawful : Prop where
  /-- A URL is read back from its own text. -/
  reparse : ∀ s u, p.parse s = some u → p.parse u.href = some u
  /-- The text of a URL neither begins nor ends with white space. -/
  trimmed : ∀ s u, p.parse s = some u → trim u.href = u.href
  /-- The text of a URL has no control characters. -/
  noNul : ∀ s u, p.parse s = some u → '\u0000' ∉ u.href.toList
  /-- Text that ends in a slash, without a query and a fragment, ends in the path. -/
  shorter : ∀ s u, p.parse s = some u → u.Plain → endsWith u.href "/" →
    stripSlashes u.pathname ≠ "" → includes (trim (stripSlashes u.href)) "://" →
    ∃ path, path ≠ "" ∧
      p.parse (trim (stripSlashes u.href)) =
        some { u with pathname := path, href := trim (stripSlashes u.href) }
  /-- Text that consists of the scheme and the host alone: a special scheme has the root as its path,
  any other has no path. -/
  bare : ∀ s u, p.parse s = some u → u.Plain → endsWith u.href "/" → u.pathname ≠ "/" →
    stripSlashes u.pathname = "" → includes (stripSlashes u.href) "://" →
    trim (stripSlashes u.href) = stripSlashes u.href ∧
      p.parse (stripSlashes u.href) =
        if isSpecial u.protocol then
          some { u with pathname := "/", href := stripSlashes u.href ++ "/" }
        else some { u with pathname := "", href := stripSlashes u.href }
  /-- The path of a URL with an empty path can be set to the root. -/
  rooted : ∀ s u, p.parse s = some u → includes s "://" → u.Plain → u.protocol = "workspace:" →
    u.pathname = "" →
    ∃ href, p.setPathname u "/" = { u with pathname := "/", href := href } ∧
      p.parse href = some { u with pathname := "/", href := href }

end

end OsAgent.Capability
