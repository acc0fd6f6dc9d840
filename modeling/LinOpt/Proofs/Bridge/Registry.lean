import LinOpt.Bridge.Registry
import LinOpt.Proofs.Entries
import LinOpt.Proofs.FirstOccurrence

namespace LinOpt

namespace Bridges

def latest (given : List Bridge) (kind : String) : Option Bridge :=
  (given.filter (·.kind == kind)).getLast?

theorem kind_of_latest {given : List Bridge} {kind : String} {b : Bridge}
    (found : latest given kind = some b) : b ∈ given ∧ b.kind = kind := by
  obtain ⟨member, named⟩ := List.mem_filter.1 (List.mem_of_getLast? found)
  exact ⟨member, beq_iff_eq.1 named⟩

theorem exists_latest {given : List Bridge} {kind : String}
    (known : kind ∈ given.map (·.kind)) : ∃ b, latest given kind = some b := by
  obtain ⟨b, member, named⟩ := List.mem_map.1 known
  have among : b ∈ given.filter (·.kind == kind) :=
    List.mem_filter.2 ⟨member, beq_iff_eq.2 named⟩
  exact ⟨_, List.getLast?_eq_getLast_of_ne_nil (List.ne_nil_of_mem among)⟩

def registerAll (given : List Bridge) : Bridges :=
  given.foldl register ⟨[]⟩

theorem kinds_registerAll (given : List Bridge) :
    (registerAll given).kinds = (given.map (·.kind)).eraseDups := by
  have empty : kinds ⟨[]⟩ = [].eraseDups := rfl
  have step (bs : Bridges) (known : List String) (b : Bridge) (start : bs.kinds = known.eraseDups) :
      (bs.register b).kinds = (known ++ [b.kind]).eraseDups :=
    Entries.names_put start b.kind b
  have kinds := foldl_eraseDups kinds _ step given empty
  rwa [List.nil_append, ← List.map_eq_flatMap] at kinds

theorem get?_registerAll (given : List Bridge) (kind : String) :
    (registerAll given).entries.get? kind = latest given kind := by
  induction given using List.reverseRecOn with
  | nil => rfl
  | append_singleton given b ih =>
    rw [registerAll, List.foldl_concat, ← registerAll, register, Entries.get?_put, ih, latest,
      latest, List.filter_append]
    by_cases here : b.kind = kind
    · simp [here]
    · simp [here]

theorem find_eq_ok {bs : Bridges} {kind : Value} {b : Bridge} :
    bs.find kind = .ok b ↔ bs.get? kind = some b := by
  unfold find
  cases bs.get? kind <;> simp

theorem find_of_get?_eq_none {bs : Bridges} {kind : Value} (nothing : bs.get? kind = none) :
    bs.find kind = .error (.unknownEngine kind bs.kinds) := by
  rw [find, nothing]

end Bridges

namespace BridgeRegistry

open Bridges

inductive Call
  | register (b : Bridge)
  | get (kind : Value)
  | find (kind : Value)
  | kinds
  | list

namespace Call

def leave (r : BridgeRegistry) : Call → BridgeRegistry
  | register b => r.register b
  | get kind => (r.get? kind).2
  | find kind => (r.find kind).2
  | kinds => r.kinds.2
  | list => r.toValue.2

def registered : Call → List Bridge
  | register b => [b]
  | _ => []

end Call

def after (calls : List Call) : BridgeRegistry :=
  calls.foldl Call.leave {}

def given (calls : List Call) : List Bridge :=
  Format.all.map Bridge.ofFormat ++ calls.flatMap Call.registered

theorem isReady_ready (r : BridgeRegistry) : r.ready.isReady = true := by
  unfold ready
  split
  next isReady => exact isReady
  next => rfl

theorem ready_ready (r : BridgeRegistry) : r.ready.ready = r.ready :=
  if_pos r.isReady_ready

theorem bridges_leave (r : BridgeRegistry) (call : Call) : (call.leave r).ready.bridges =
    call.registered.foldl Bridges.register r.ready.bridges := by
  cases call with
  | register b =>
    have isReady : (r.register b).isReady = true := r.isReady_ready
    exact congrArg bridges (if_pos isReady)
  | get kind => exact congrArg bridges r.ready_ready
  | find kind => exact congrArg bridges r.ready_ready
  | kinds => exact congrArg bridges r.ready_ready
  | list => exact congrArg bridges r.ready_ready

theorem bridges_after (calls : List Call) :
    (after calls).ready.bridges = registerAll (given calls) := by
  have run : ∀ r : BridgeRegistry, (calls.foldl Call.leave r).ready.bridges =
      (calls.flatMap Call.registered).foldl Bridges.register r.ready.bridges := by
    intro r
    induction calls generalizing r with
    | nil => rfl
    | cons call calls ih =>
      rw [List.foldl_cons, ih, bridges_leave, List.flatMap_cons, List.foldl_append]
  rw [after, run, registerAll, given, List.foldl_append]
  rfl

/-- A registry that finds bridges as they were given to it. A kind that is not in small letters is
listed as well, but no spelling of it finds its bridge, and a spelling of no listed kind in small
letters finds none. -/
structure Finds (r : BridgeRegistry) (given : List Bridge) : Prop where
  kinds : r.kinds.1 = (given.map (·.kind)).eraseDups
  nodup : r.kinds.1.Nodup
  found : ∀ k ∈ r.kinds.1, ∃ b, latest given k = some b ∧ ∀ s, Text.lower s = Text.lower k →
    ((r.get? (.text s)).1 = some b ↔ Text.lower k = k) ∧
    ((r.find (.text s)).1 = .ok b ↔ Text.lower k = k)
  lost : ∀ s, Text.lower s ∉ r.kinds.1 → (r.get? (.text s)).1 = none ∧
    (r.find (.text s)).1 = .error (.unknownEngine (.text s) r.kinds.1)

section registered

variable {r : BridgeRegistry} {given : List Bridge} (bridges : r.ready.bridges = registerAll given)
include bridges

theorem kinds_eq : r.kinds.1 = (given.map (·.kind)).eraseDups := by
  rw [kinds, bridges]
  exact kinds_registerAll given

theorem get?_eq (s : String) : (r.get? (.text s)).1 = latest given (Text.lower s) := by
  rw [get?, bridges]
  exact get?_registerAll given _

theorem finds_of_bridges : r.Finds given where
  kinds := kinds_eq bridges
  nodup := kinds_eq bridges ▸ nodup_eraseDups _
  found := by
    intro k listed
    rw [kinds_eq bridges, List.mem_eraseDups] at listed
    obtain ⟨b, last⟩ := exists_latest listed
    refine ⟨b, last, fun s same => ?_⟩
    have spelled : (r.get? (.text s)).1 = some b ↔ Text.lower k = k := by
      rw [get?_eq bridges, same]
      constructor
      -- A bridge is only ever found under its own kind, and this one has the kind `k`.
      · intro here
        exact (kind_of_latest here).2.symm.trans (kind_of_latest last).2
      · intro small
        rw [small, last]
    exact ⟨spelled, find_eq_ok.trans spelled⟩
  lost := by
    intro s absent
    have nothing : (r.get? (.text s)).1 = none := by
      rw [get?_eq bridges, Option.eq_none_iff_forall_ne_some]
      intro b found
      obtain ⟨member, named⟩ := kind_of_latest found
      rw [kinds_eq bridges, List.mem_eraseDups] at absent
      exact absent (List.mem_map.2 ⟨b, member, named⟩)
    exact ⟨nothing, find_of_get?_eq_none nothing⟩

end registered

/-- Whatever has been called, in whatever order, the registry lists the kinds of the bridges once,
the standard ones first, and finds the bridge that was registered last under a kind if and only if
the kind is in small letters. -/
theorem registered_bridges_are_found (calls : List Call) : (after calls).Finds (given calls) :=
  finds_of_bridges (bridges_after calls)

def remote : Bridge :=
  { Bridge.glpk with kind := "Remote", title := "CustomBridge" }

/-- It is listed and no other kind has the same letters, but it is not found under its own kind, and
the error that its kind is unknown lists it among the known ones. -/
theorem capital_kind_is_not_found :
    (after [.register remote]).kinds.1 = ["glpk", "highs", "jslp", "Remote"] ∧
      (∀ k ∈ ["glpk", "highs", "jslp"], Text.lower k ≠ Text.lower "Remote") ∧
      latest (given [.register remote]) "Remote" = some remote ∧
      ((after [.register remote]).get? (.text "Remote")).1 = none ∧
      ((after [.register remote]).find (.text "Remote")).1 =
        .error (.unknownEngine (.text "Remote") ["glpk", "highs", "jslp", "Remote"]) := by
  have kinds : (after [.register remote]).kinds.1 = ["glpk", "highs", "jslp", "Remote"] := by
    decide +kernel
  have absent : Text.lower "Remote" ∉ ["glpk", "highs", "jslp", "Remote"] := by decide +kernel
  obtain ⟨nothing, unknown⟩ :=
    (finds_of_bridges (bridges_after [.register remote])).lost "Remote" (kinds ▸ absent)
  exact ⟨kinds, by decide +kernel, by decide +kernel, nothing, kinds ▸ unknown⟩

end BridgeRegistry

end LinOpt
