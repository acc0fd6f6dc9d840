import LinOpt.Bridge.Basic

namespace LinOpt

structure Bridges where
  entries : Entries Bridge

namespace Bridges

def standard : Bridges :=
  ⟨Format.all.map fun format => (format.kind, Bridge.ofFormat format)⟩

def register (bs : Bridges) (b : Bridge) : Bridges :=
  ⟨bs.entries.put b.kind b⟩

def get? (bs : Bridges) : Value → Option Bridge
  | .text kind => bs.entries.get? (Text.lower kind)
  | _ => none

def kinds (bs : Bridges) : List String :=
  bs.entries.names

def find (bs : Bridges) (kind : Value) : Except Error Bridge :=
  match bs.get? kind with
  | some b => .ok b
  | none => .error (.unknownEngine kind bs.kinds)

def toValue (bs : Bridges) : Value :=
  .record (bs.entries.map fun (kind, b) => (kind, .record [
    ("name", .text b.name),
    ("supports_quadratic", .bool b.supportsQuadratic),
    ("objective_includes_constant", .bool b.includesConstant)]))

end Bridges

/-- A registry that has no bridges before its first use. -/
structure BridgeRegistry where
  bridges : Bridges := ⟨[]⟩
  isReady : Bool := false

namespace BridgeRegistry

/-- Any use puts in the standard bridges first, unless they have been put in. -/
def ready (r : BridgeRegistry) : BridgeRegistry :=
  if r.isReady then r
  else {
    bridges := Format.all.foldl (fun bs format => bs.register (.ofFormat format)) r.bridges
    isReady := true }

def register (r : BridgeRegistry) (b : Bridge) : BridgeRegistry :=
  { r.ready with bridges := r.ready.bridges.register b }

def get? (r : BridgeRegistry) (kind : Value) : Option Bridge × BridgeRegistry :=
  (r.ready.bridges.get? kind, r.ready)

def find (r : BridgeRegistry) (kind : Value) : Except Error Bridge × BridgeRegistry :=
  (r.ready.bridges.find kind, r.ready)

def kinds (r : BridgeRegistry) : List String × BridgeRegistry :=
  (r.ready.bridges.kinds, r.ready)

def toValue (r : BridgeRegistry) : Value × BridgeRegistry :=
  (r.ready.bridges.toValue, r.ready)

end BridgeRegistry

end LinOpt
