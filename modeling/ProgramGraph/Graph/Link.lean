import ProgramGraph.Graph.Basic

set_option autoImplicit false

/-!
# Links from usages to declarations

The links that resolution adds are read off the nodes: a reference points at the declaration it
means, a member access at the declarations of its base and of its member. A base or member that is
still an expression is no link.

## Main definitions

* `ProgramGraph.LinkKind` — the three sorts of links, and `ProgramGraph.LinkKind.ofText?`.
* `ProgramGraph.Link` — a link with what is shown of its two ends.
* `ProgramGraph.Graph.links` — all links of a graph, in the order of their usages.
-/

namespace ProgramGraph

/-- What a link says about its usage. -/
inductive LinkKind where
  /-- A reference means the declaration. -/
  | refersTo
  /-- The base of a member access is the declaration. -/
  | base
  /-- The member of a member access is the declaration. -/
  | member
deriving DecidableEq, Repr

namespace LinkKind

/-- All sorts of links in their fixed order. -/
def all : List LinkKind := [.refersTo, .base, .member]

/-- The place of a sort among all sorts. -/
def position (kind : LinkKind) : Nat := all.idxOf kind

/-- The name of a sort. -/
def label : LinkKind → String
  | .refersTo => "refers_to"
  | .base => "base"
  | .member => "member"

/-- The sort that a text names, in upper or lower case. -/
def ofText? (text : String) : Option LinkKind :=
  match Text.lowercase text with
  | "refers_to" | "refers-to" | "ref" => some .refersTo
  | "base" => some .base
  | "member" => some .member
  | _ => none

end LinkKind

/-- A link from a usage to a declaration. -/
structure Link where
  /-- The usage. -/
  source : NodeId
  /-- The declaration. -/
  target : NodeId
  /-- What the link says. -/
  kind : LinkKind
  /-- The name of the usage. -/
  name : String
  /-- The kind of the declaration. -/
  targetTag : Tag
  /-- Whether the declaration was made up. -/
  dummy : Bool
  /-- The line of the usage, where it is known. -/
  line : Option Nat
deriving DecidableEq, Repr

namespace Graph

/-- The link from a usage to a declaration. -/
def link (g : Graph) (source : NodeId) (usage : Node) (kind : LinkKind) (target : NodeId) :
    Except Fault Link := do
  let declaration ← g.node target
  return {
    source, target, kind
    name := usage.name
    targetTag := declaration.tag
    dummy := declaration.dummy
    line := usage.line }

/-- The link from a slot of a member access, unless an expression still stands there. -/
def slotLink (g : Graph) (source : NodeId) (usage : Node) (kind : LinkKind) (slot : NodeId) :
    Except Fault (List Link) := do
  if (← g.node slot).tag.isExpression then return []
  return [← g.link source usage kind slot]

/-- The links of one usage. -/
def linksOf (g : Graph) (id : NodeId) : Except Fault (List Link) := do
  let usage ← g.node id
  match usage.payload with
  | .reference (some target) _ => return [← g.link id usage .refersTo target]
  | .memberAccess base none => g.slotLink id usage .base base
  | .memberAccess base (some member) =>
    return (← g.slotLink id usage .base base) ++ (← g.slotLink id usage .member member)
  | _ => return []

/-- All links of a graph, in the order of their usages. -/
def links (g : Graph) : Except Fault (List Link) :=
  return (← g.ids.mapM g.linksOf).flatten

end Graph

end ProgramGraph
