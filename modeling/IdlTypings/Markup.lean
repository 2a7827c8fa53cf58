import IdlTypings.Text.Blank
import IdlTypings.Text.Case

/-!
# Documents in markup

A document is a list of nodes: pieces of text, comments, and elements with attributes and further
nodes. `Node.content` is all text below a node in order.
-/

namespace IdlTypings.Markup

inductive Node where
  | text (t : Text)
  | comment
  | element (name : String) (attributes : List (Text × Text)) (children : List Node)
  deriving Inhabited

namespace Node

mutual

def content : Node → Text
  | text t => t
  | comment => []
  | element _ _ children => contentAll children

def contentAll : List Node → Text
  | [] => []
  | node :: nodes => node.content ++ contentAll nodes

end

end Node

def attributeOf (attributes : List (Text × Text)) (key : Text) : Text :=
  (attributes.lookup key).getD []

def hasClass (attributes : List (Text × Text)) (word : Text) : Bool :=
  (attributeOf attributes "class").words.contains word

end IdlTypings.Markup
