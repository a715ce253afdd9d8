import LiveResource.Pattern
import LiveResource.Replica

set_option autoImplicit false

/-!
# Factories of replicas

Which replica a resource gets depends on its id: the factory of the best pattern makes it, or the
default factory if no pattern matches.
-/

namespace LiveResource

abbrev ModelFactory := String → Fields × Hooks

abbrev CollectionFactory := String → List Value × Hooks

structure Registry where
  models : PatternMap ModelFactory
  collections : PatternMap CollectionFactory
  defaultModel : ModelFactory
  defaultCollection : CollectionFactory

namespace Registry

def empty : Registry := ⟨.empty, .empty, fun _ => (∅, .pass), fun _ => ([], .pass)⟩

instance : Inhabited Registry := ⟨empty⟩

def registerModel (r : Registry) (pattern : String) (factory : ModelFactory) :
    Except PatternError Registry :=
  match r.models.add pattern factory with
  | .error e => .error e
  | .ok models => .ok { r with models := models }

def registerCollection (r : Registry) (pattern : String) (factory : CollectionFactory) :
    Except PatternError Registry :=
  match r.collections.add pattern factory with
  | .error e => .error e
  | .ok collections => .ok { r with collections := collections }

def createModel (r : Registry) (rid : String) : Fields × Hooks :=
  ((r.models.get? rid).getD r.defaultModel) rid

def createCollection (r : Registry) (rid : String) : List Value × Hooks :=
  ((r.collections.get? rid).getD r.defaultCollection) rid

end Registry

end LiveResource
