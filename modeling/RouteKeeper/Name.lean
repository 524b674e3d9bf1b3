import RouteKeeper.OrderedMap

/-!
# Names of groups and connections

Groups and connections are named by texts of any kind. One connection name is special: the public
one is the direct way to a peer, outside every tunnel.
-/
namespace RouteKeeper

/-- The name of a group of paths that lead to one peer. -/
structure GroupName where
  text : String
deriving DecidableEq

/-- The name of a connection, one way to reach a peer. -/
structure ConnectionName where
  text : String
deriving DecidableEq

instance : KeyOrder GroupName := KeyOrder.along GroupName.text fun a b h => by
  cases a; cases b; cases h; rfl

instance : KeyOrder ConnectionName := KeyOrder.along ConnectionName.text fun a b h => by
  cases a; cases b; cases h; rfl

namespace ConnectionName

/-- The direct connection. -/
def direct : ConnectionName := ⟨"public"⟩

/-- The connection is the direct one. -/
def isDirect (c : ConnectionName) : Bool := c = direct

end ConnectionName

end RouteKeeper
