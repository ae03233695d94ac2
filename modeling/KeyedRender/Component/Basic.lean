import KeyedRender.Document.Basic

/-!
# Components

A component type has a name of its own and a tag that is written on the nodes it is attached to;
two types should not share a tag. A component is one instance of its type: it keeps the key it
was created under, the node it was last attached to, and how often it was rendered and
synchronized. The registry holds every component ever created, and the order in which components
became known.
-/
namespace KeyedRender

structure ComponentType where
  name : String
  tag : String
  synchronizes : Bool
deriving DecidableEq

namespace ComponentType

def counter : ComponentType := ⟨"Counter", "Counter", true⟩

def other : ComponentType := ⟨"Other", "Other", true⟩

/-- A different type under the tag of another one. -/
def clash : ComponentType := ⟨"Clash", "Counter", true⟩

def plain : ComponentType := ⟨"Plain", "Plain", false⟩

end ComponentType

structure Component where
  type : ComponentType
  key : String
  node : Option NodeId
  createdWith : String
  renders : Nat
  synchronized : Nat
deriving DecidableEq

namespace Component

def new (type : ComponentType) (key createdWith : String) : Component :=
  ⟨type, key, none, createdWith, 0, 0⟩

def countRender (c : Component) : Component := { c with renders := c.renders + 1 }

def synchronize (c : Component) : Component :=
  if c.type.synchronizes then { c with synchronized := c.synchronized + 1 } else c

def placeAt (node : NodeId) (c : Component) : Component := { c with node := some node }

end Component

structure Registry where
  components : Array Component
  known : List ComponentId

/-- What is told of a known component; nothing but its type once it is released. -/
structure ComponentReport where
  index : Nat
  type : ComponentType
  live : Option Component

namespace Registry

def empty : Registry := ⟨#[], []⟩

def component? (r : Registry) (id : ComponentId) : Option Component := r.components[id]?

def create (r : Registry) (c : Component) : ComponentId × Registry :=
  (r.components.size, { r with components := r.components.push c })

def update (r : Registry) (id : ComponentId) (change : Component → Component) : Registry :=
  { r with components := r.components.modify id change }

def learn (r : Registry) (id : ComponentId) : Registry :=
  if id ∈ r.known then r else { r with known := r.known ++ [id] }

def report? (r : Registry) (isLive : ComponentId → Bool) (id : ComponentId) :
    Option ComponentReport :=
  (r.component? id).map fun c =>
    ⟨r.known.idxOf id, c.type, if isLive id then some c else none⟩

def reports (r : Registry) (isLive : ComponentId → Bool) : List ComponentReport :=
  r.known.filterMap (r.report? isLive)

end Registry

end KeyedRender
