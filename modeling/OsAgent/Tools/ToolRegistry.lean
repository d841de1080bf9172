import OsAgent.AgentRuntime.Executor
import OsAgent.Capability.Manager

/-!
# The registry of tools

A tool says what effect it has and which capabilities a call of it needs (`tools/tool.ts`). The
registry takes no tool that does not say so, and no second one under a name
(`tools/tool-registry.ts`). What a tool does when it is executed is not modelled here.
-/

namespace OsAgent.Tools

open OsAgent.Library OsAgent.Capability
open AgentRuntime (ToolEffect)

/-- A tool, as far as the decision about its calls reads it. What its functions throw is a text. -/
structure Tool where
  name : String
  effect : ToolEffect
  validateInput : List (String × JsonValue) → Except String Bool
  requiredCapability : Option String
  requiredCapabilities : Option (List (String × JsonValue) → Except String (List CapabilityInput))

/-- The tool says which capabilities it needs. -/
def Tool.Declares (tool : Tool) : Prop :=
  tool.requiredCapability.isSome ∨ tool.requiredCapabilities.isSome

instance decidableDeclares (tool : Tool) : Decidable tool.Declares :=
  inferInstanceAs (Decidable (_ ∨ _))

/-- What a call of the tool needs, before it is normalized. -/
def Tool.inputs (tool : Tool) (arguments : List (String × JsonValue)) :
    Except CapabilityError (List CapabilityInput) :=
  match tool.requiredCapabilities with
  | some requiredCapabilities => (requiredCapabilities arguments).mapError .error
  | none =>
    match tool.requiredCapability with
    -- The empty text counts as no name.
    | some capability => .ok (if capability = "" then [] else [.name capability])
    | none => .ok []

/-- The registered tools. Every one says what it needs. -/
structure ToolRegistry where
  tools : OrderedMap Tool.name
  declared : ∀ tool ∈ tools.entries, tool.Declares

namespace ToolRegistry

variable (registry : ToolRegistry)

/-- Registers a tool under a new name. It has to say what it needs. -/
def register (tool : Tool) : Except CapabilityError ToolRegistry :=
  if registry.tools.has tool.name then
    .error (.error ("Tool is already registered: " ++ tool.name))
  else if h : tool.Declares then
    .ok ⟨registry.tools.insert tool, fun other hother =>
      (OrderedMap.mem_entries_insert hother).elim (fun heq => heq ▸ h) (registry.declared other)⟩
  else .error (.error ("Tool must declare its required capabilities: " ++ tool.name))

/-- Finds a tool by its name. -/
def get (toolName : String) : Except CapabilityError Tool :=
  match registry.tools.get? toolName with
  | some tool => .ok tool
  | none => .error (.error ("Tool is not registered: " ++ toolName))

/-- `descriptors`, of which the runtime reads the names. -/
def descriptors : List String := registry.tools.keys

variable {registry}

/-- A tool is got exactly if it is registered. -/
theorem get_eq_ok {toolName : String} {tool : Tool} :
    registry.get toolName = .ok tool ↔ registry.tools.get? toolName = some tool := by
  unfold get
  cases registry.tools.get? toolName <;> simp

/-- A registered tool is found under its name, and those before it still are. -/
theorem get_register {tool : Tool} {registry' : ToolRegistry}
    (h : registry.register tool = .ok registry') (toolName : String) :
    registry'.get toolName = if toolName = tool.name then .ok tool else registry.get toolName := by
  unfold register at h
  split_ifs at h with _ hdeclares
  cases h
  unfold get
  rw [OrderedMap.get?_insert]
  split_ifs <;> rfl

end ToolRegistry

end OsAgent.Tools
