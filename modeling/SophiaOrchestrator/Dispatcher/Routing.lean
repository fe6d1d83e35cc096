import SophiaOrchestrator.Governor.Spawn

/-!
# Which adapter handles a dispatch

The services talk to one dispatcher.  It looks the provider of the phase up in a factory and
hands the request to the adapter registered under that name; a name that is not registered
falls back to the default.  `wire` fills the factory from the configuration: the opencode
adapter is the default dispatcher and stands under the name of the *default provider*, the
other adapters under their own names, each only if its settings are present.
-/

namespace SophiaOrchestrator.Dispatcher

open Effects Prog

/-! ## The factory -/

/-- `Factory`: adapters by provider name.  The default provider always has an adapter. -/
structure Factory (α : Type) where
  adapters : List (String × α)
  defName : String
  registered : (adapters.lookup defName).isSome

structure UnknownProvider where
  provider : String
  registered : List String
  deriving DecidableEq, Repr

namespace Factory

variable {α : Type}

/-- `New`; the source panics on an empty name. -/
def new (defName : String) (_hname : defName ≠ "") (defaultDispatcher : α) : Factory α where
  adapters := [(defName, defaultDispatcher)]
  defName := defName
  registered := by simp

/-- `Register`: the last adapter of a name wins; the source panics on an empty name. -/
def register (f : Factory α) (provider : String) (_hname : provider ≠ "") (adapter : α) :
    Factory α where
  adapters := (provider, adapter) :: f.adapters
  defName := f.defName
  registered := by
    rw [List.lookup_cons]
    split
    · rfl
    · exact f.registered

def providers (f : Factory α) : List String :=
  (f.adapters.map (·.1)).dedup.mergeSort (fun a b => decide (a ≤ b))

def get (f : Factory α) (provider : String) : Except UnknownProvider α :=
  match f.adapters.lookup provider with
  | some adapter => .ok adapter
  | none => .error ⟨provider, f.providers⟩

def default (f : Factory α) : α :=
  (f.adapters.lookup f.defName).get f.registered

/-- An optional registration, as `wire` makes it for a provider that is opted in. -/
def registerIf (f : Factory α) (provider : String) (hname : provider ≠ "")
    (adapter : Option α) : Factory α :=
  match adapter with
  | some adapter => f.register provider hname adapter
  | none => f

@[simp] theorem registerIf_defName (f : Factory α) (provider : String) (hname : provider ≠ "")
    (adapter : Option α) : (f.registerIf provider hname adapter).defName = f.defName := by
  cases adapter <;> rfl

theorem registerIf_lookup (f : Factory α) (provider : String) (hname : provider ≠ "")
    (adapter : Option α) (name : String) :
    (f.registerIf provider hname adapter).adapters.lookup name =
      if name = provider then adapter.or (f.adapters.lookup name)
      else f.adapters.lookup name := by
  cases adapter with
  | none => simp [registerIf]
  | some adapter =>
    simp only [registerIf, register, List.lookup_cons, Option.some_or]
    by_cases hcase : name = provider
    · simp [hcase]
    · simp [hcase, beq_false_of_ne hcase]

theorem get_of_lookup {f : Factory α} {provider : String} {adapter : α}
    (h : f.adapters.lookup provider = some adapter) : f.get provider = .ok adapter := by
  rw [get, h]

theorem default_of_lookup {f : Factory α} {adapter : α}
    (h : f.adapters.lookup f.defName = some adapter) : f.default = adapter := by
  simp [default, h]

end Factory

/-! ## The dispatcher of the services -/

structure Request where
  prompt : String
  worktreePath : String
  timeoutMS : Int
  envelopeOut : String
  phaseType : String
  modelOverride : String
  deriving DecidableEq, Repr

structure Result where
  exitCode : Int
  stdout : String
  stderr : String
  envelopeRaw : Option String
  durationMS : Int
  adapterID : String
  deriving DecidableEq, Repr

structure AdapterCall (α : Type) where
  adapter : α
  request : Request
  deriving DecidableEq, Repr

abbrev AdapterCall.Ret {α : Type} (_ : AdapterCall α) : Type :=
  Except String Result

structure WrappingDispatcher (α : Type) where
  factory : Factory α
  providerByPhase : List (String × String)

namespace WrappingDispatcher

variable {α : Type}

/-- `adapterFor`: the provider of the phase if it is set and known, else the default. -/
def adapterFor (w : WrappingDispatcher α) (phaseType : String) : α :=
  if phaseType ≠ "" then
    match w.providerByPhase.lookup phaseType with
    | some name =>
      if name ≠ "" then
        match w.factory.get name with
        | .ok adapter => adapter
        | .error _ => w.factory.default
      else
        w.factory.default
    | none => w.factory.default
  else
    w.factory.default

def dispatch (w : WrappingDispatcher α) (req : Request) :
    Prog (AdapterCall α) AdapterCall.Ret (Except String Result) := do
  let adapter := w.adapterFor req.phaseType
  perform (⟨adapter, req⟩ : AdapterCall α)

/-- A dispatch is one call of one adapter. -/
theorem dispatch_eq (w : WrappingDispatcher α) (req : Request) :
    w.dispatch req = perform (⟨w.adapterFor req.phaseType, req⟩ : AdapterCall α) := rfl

end WrappingDispatcher

/-! ## The configuration and the adapters -/

/-- The settings of an adapter that runs a command: `opencode.Config`, `ollama.Config` and
`aider.Config`. -/
structure CommandConfig where
  cmd : String := ""
  suggested : Int := 0
  model : String := ""
  modelByPhase : List (String × String) := []
  deriving DecidableEq, Repr

structure MCPConfig where
  bridgeURL : String := ""
  token : String := ""
  origin : String := ""
  transport : String := ""
  timeoutMS : Int := 0
  providerAllowlist : List String := []
  defaultModel : String := ""
  modelByPhase : List (String × String) := []
  provider : String := ""
  defaultCWD : String := ""
  deriving DecidableEq, Repr

/-- `DispatcherConfig`; the settings of opencode are its own `Cmd`, `SuggestedConcurrent`,
`Model` and `ModelByPhase`. -/
structure DispatcherConfig where
  opencode : CommandConfig := {}
  provider : String := ""
  providerByPhase : List (String × String) := []
  ollama : CommandConfig := {}
  aider : CommandConfig := {}
  mcp : MCPConfig := {}
  deriving DecidableEq, Repr

inductive Adapter where
  | opencode (cfg : CommandConfig)
  | ollama (cfg : CommandConfig)
  | aider (cfg : CommandConfig)
  | mcp (cfg : MCPConfig)
  deriving DecidableEq, Repr

variable (cfg : DispatcherConfig)

namespace DispatcherConfig

/-- The default provider of `wire`: an empty name stands for opencode. -/
def defaultProvider : String :=
  if cfg.provider = "" then "opencode" else cfg.provider

theorem defaultProvider_ne : cfg.defaultProvider ≠ "" := by
  unfold defaultProvider
  split
  · decide
  · assumption

def ollamaAdapter : Option Adapter :=
  if cfg.ollama.cmd ≠ "" then some (.ollama cfg.ollama) else none

def aiderAdapter : Option Adapter :=
  if cfg.aider.cmd ≠ "" then some (.aider cfg.aider) else none

def mcpAdapter : Option Adapter :=
  if cfg.mcp.bridgeURL ≠ "" then some (.mcp cfg.mcp) else none

def dispatcherFactory : Factory Adapter :=
  (((Factory.new cfg.defaultProvider cfg.defaultProvider_ne (.opencode cfg.opencode)).registerIf
    "ollama" (by decide) cfg.ollamaAdapter).registerIf
    "aider" (by decide) cfg.aiderAdapter).registerIf
    "mcp" (by decide) cfg.mcpAdapter

def wrappingDispatcher : WrappingDispatcher Adapter where
  factory := cfg.dispatcherFactory
  providerByPhase := cfg.providerByPhase

def mcpSelected : Bool :=
  cfg.provider == "mcp" || cfg.providerByPhase.any fun entry => entry.2 == "mcp"

/-- The guards that run before anything is opened. -/
def checkMCP : Except String Unit :=
  if cfg.mcpSelected && cfg.mcp.bridgeURL == "" then
    .error "bootstrap: SOPHIA_DISPATCHER_PROVIDER=mcp requires SOPHIA_MCP_BRIDGE_URL to be set"
  else if cfg.mcpSelected && cfg.mcp.provider == "" then
    .error ("bootstrap: SOPHIA_DISPATCHER_PROVIDER=mcp (or per-phase override) requires " ++
      "SOPHIA_MCP_PROVIDER to be set")
  else
    .ok ()

end DispatcherConfig

/-! ## Wire -/

/-- The configuration as far as `wire` can refuse it or routes by it. -/
structure Config where
  runMigrationsOnBoot : Bool := false
  skillsEnabled : Bool := false
  dispatcher : DispatcherConfig := {}
  spawn : Governor.SpawnGovernorConfig := {}

/-- How the constructors and services answer that `wire` calls and that are not modelled. -/
structure Environment where
  dbOpen : Except String Unit := .ok ()
  migrateUp : Except String Unit := .ok ()
  governance : Except String Unit := .ok ()
  memory : Except String Unit := .ok ()
  runtime : Except String Unit := .ok ()
  tracer : Except String Unit := .ok ()
  seedSkills : Except String Unit := .ok ()

/-- The wired application, with the dispatcher that the phase and the apply service share. -/
structure App where
  dispatcher : WrappingDispatcher Adapter

def wrapErr (stage : String) : Except String Unit → Except String Unit
  | .ok () => .ok ()
  | .error err => .error (stage ++ err)

def wire (cfg : Config) (env : Environment) : Except String App := do
  cfg.dispatcher.checkMCP
  wrapErr "bootstrap: db open: " env.dbOpen
  wrapErr "bootstrap: migrate: " (if cfg.runMigrationsOnBoot then env.migrateUp else .ok ())
  wrapErr "bootstrap: governance: " env.governance
  wrapErr "bootstrap: memory: " env.memory
  wrapErr "bootstrap: runtime: " env.runtime
  let dispatcher := cfg.dispatcher.wrappingDispatcher
  wrapErr "bootstrap: spawn governor: " cfg.spawn.validate
  wrapErr "bootstrap: tracer: " env.tracer
  wrapErr "bootstrap: skill seeder: " (if cfg.skillsEnabled then env.seedSkills else .ok ())
  return { dispatcher := dispatcher }

theorem eq_ok_of_bind {ε α β : Type} {x : Except ε α} {f : α → Except ε β} {b : β}
    (h : (x >>= f) = .ok b) : ∃ a, f a = .ok b := by
  cases x with
  | error err => cases h
  | ok a => exact ⟨a, h⟩

/-- An accepted configuration is wired with the dispatcher of its settings. -/
theorem wire_spec {cfg : Config} {env : Environment} {app : App} (h : wire cfg env = .ok app) :
    app.dispatcher = cfg.dispatcher.wrappingDispatcher := by
  unfold wire at h
  iterate 9 obtain ⟨-, h⟩ := eq_ok_of_bind h
  cases h
  rfl

/-! ## Routing -/

namespace DispatcherConfig

variable (cfg : DispatcherConfig)

def override (pt : PhaseType) : Option String :=
  (cfg.providerByPhase.lookup pt.toString).filter (· ≠ "")

/-- The provider the configuration asks for: the one of the phase, else the default, else
opencode. -/
def configuredProvider (pt : PhaseType) : String :=
  (cfg.override pt).getD cfg.defaultProvider

/-- The adapter of a provider: opencode always has one, the others if their own settings are
present, an unknown provider never. -/
def ownAdapter (provider : String) : Option Adapter :=
  if provider = "opencode" then some (.opencode cfg.opencode)
  else if provider = "ollama" then cfg.ollamaAdapter
  else if provider = "aider" then cfg.aiderAdapter
  else if provider = "mcp" then cfg.mcpAdapter
  else none

/-- Opencode can be asked for by a phase: it is the default provider, or the default provider
has no adapter of its own. -/
def opencodeReachable : Prop :=
  cfg.defaultProvider = "opencode" ∨ cfg.ownAdapter cfg.defaultProvider = none

instance : Decidable cfg.opencodeReachable :=
  inferInstanceAs (Decidable (_ ∨ _))

theorem lookup_dispatcherFactory (name : String) :
    cfg.dispatcherFactory.adapters.lookup name =
      if name = "opencode" then
        if name = cfg.defaultProvider then some (.opencode cfg.opencode) else none
      else
        (cfg.ownAdapter name).or
          (if name = cfg.defaultProvider then some (.opencode cfg.opencode) else none) := by
  have hnew : ∀ (hname : cfg.defaultProvider ≠ ""),
      (Factory.new cfg.defaultProvider hname (Adapter.opencode cfg.opencode)).adapters.lookup name =
        if name = cfg.defaultProvider then some (.opencode cfg.opencode) else none := by
    intro hname
    by_cases hcase : name = cfg.defaultProvider
    · simp [Factory.new, hcase]
    · simp [Factory.new, List.lookup_cons, hcase, beq_false_of_ne hcase]
  simp only [dispatcherFactory, Factory.registerIf_lookup, hnew, ownAdapter]
  by_cases hopencode : name = "opencode"
  · subst hopencode
    simp
  by_cases hollama : name = "ollama"
  · subst hollama
    simp
  by_cases haider : name = "aider"
  · subst haider
    simp
  by_cases hmcp : name = "mcp"
  · subst hmcp
    simp
  simp [hopencode, hollama, haider, hmcp]

@[simp] theorem dispatcherFactory_defName :
    cfg.dispatcherFactory.defName = cfg.defaultProvider := by
  simp [dispatcherFactory, Factory.new]

/-- The default dispatcher is the adapter of the default provider, or opencode if that
provider has none. -/
theorem dispatcherFactory_default :
    cfg.dispatcherFactory.default =
      (cfg.ownAdapter cfg.defaultProvider).getD (.opencode cfg.opencode) := by
  refine Factory.default_of_lookup ?_
  rw [dispatcherFactory_defName, lookup_dispatcherFactory]
  by_cases hopencode : cfg.defaultProvider = "opencode"
  · simp [hopencode, ownAdapter]
  · cases hown : cfg.ownAdapter cfg.defaultProvider <;> simp [hopencode]

/-- A provider with an adapter is found under its name; opencode only as the default. -/
theorem dispatcherFactory_get {provider : String} {adapter : Adapter}
    (hown : cfg.ownAdapter provider = some adapter)
    (hopencode : provider = "opencode" → cfg.defaultProvider = "opencode") :
    cfg.dispatcherFactory.get provider = .ok adapter := by
  refine Factory.get_of_lookup ?_
  rw [lookup_dispatcherFactory]
  by_cases hcase : provider = "opencode"
  · rw [if_pos hcase, hopencode hcase, if_pos hcase]
    rw [ownAdapter, if_pos hcase] at hown
    exact hown
  · rw [if_neg hcase, hown, Option.some_or]

variable {cfg} {pt : PhaseType}

theorem adapterFor_of_none (h : cfg.override pt = none) :
    cfg.wrappingDispatcher.adapterFor pt.toString = cfg.dispatcherFactory.default := by
  unfold WrappingDispatcher.adapterFor wrappingDispatcher
  unfold override at h
  split
  · split
    · rename_i name hlookup
      rw [hlookup] at h
      have hname : name = "" := by simpa [Option.filter] using h
      rw [if_neg (by simp [hname])]
    · rfl
  · rfl

theorem adapterFor_of_some {name : String} (h : cfg.override pt = some name) :
    cfg.wrappingDispatcher.adapterFor pt.toString =
      match cfg.dispatcherFactory.get name with
      | .ok adapter => adapter
      | .error _ => cfg.dispatcherFactory.default := by
  obtain ⟨hlookup, hname⟩ := Option.filter_eq_some_iff.mp h
  have hpt : pt.toString ≠ "" := by cases pt <;> decide
  simp only [WrappingDispatcher.adapterFor, wrappingDispatcher, if_pos hpt, hlookup]
  rw [if_pos (of_decide_eq_true hname)]
  cases cfg.dispatcherFactory.get name <;> rfl

/-- Where opencode is not the default provider, a phase that names it goes to the default. -/
theorem adapterFor_of_opencode
    (hoverride : cfg.override pt = some "opencode") (hother : cfg.defaultProvider ≠ "opencode") :
    cfg.wrappingDispatcher.adapterFor pt.toString =
      (cfg.ownAdapter cfg.defaultProvider).getD (.opencode cfg.opencode) := by
  have hunknown : cfg.dispatcherFactory.adapters.lookup "opencode" = none := by
    simp [lookup_dispatcherFactory, Ne.symm hother]
  rw [adapterFor_of_some hoverride]
  simp [Factory.get, hunknown, dispatcherFactory_default]

/-- The adapter of a phase is the one of its configured provider, unless it names opencode and
opencode is not reachable. -/
theorem adapterFor_eq {adapter : Adapter}
    (hadapter : cfg.ownAdapter (cfg.configuredProvider pt) = some adapter)
    (hreachable : cfg.override pt = some "opencode" → cfg.opencodeReachable) :
    cfg.wrappingDispatcher.adapterFor pt.toString = adapter := by
  unfold configuredProvider at hadapter
  cases hoverride : cfg.override pt with
  | none =>
    rw [hoverride, Option.getD_none] at hadapter
    rw [adapterFor_of_none hoverride]
    simp [dispatcherFactory_default, hadapter]
  | some name =>
    rw [hoverride, Option.getD_some] at hadapter
    by_cases hdefault : name = "opencode" ∧ cfg.defaultProvider ≠ "opencode"
    · obtain ⟨rfl, hother⟩ := hdefault
      -- opencode is not registered: the default must be opencode under another name
      have hnone := (hreachable hoverride).resolve_left hother
      simp only [ownAdapter, if_pos] at hadapter
      rw [adapterFor_of_opencode hoverride hother, hnone]
      exact Option.some.inj hadapter
    · rw [adapterFor_of_some hoverride,
        cfg.dispatcherFactory_get hadapter (by tauto)]

theorem ownAdapter_ne_opencode {provider : String}
    (hother : provider ≠ "opencode") (settings : CommandConfig) :
    cfg.ownAdapter provider ≠ some (.opencode settings) := by
  simp only [ownAdapter, if_neg hother, ollamaAdapter,
    aiderAdapter, mcpAdapter]
  split_ifs <;> simp

end DispatcherConfig

/-- Every dispatch of a phase is one call.  It is answered by the adapter of the provider that the
configuration names for the phase, if that provider has an adapter, exactly if the phase does not
name opencode itself, or the default provider is opencode or has no adapter of its own. -/
theorem dispatch_routed_iff {cfg : Config} {env : Environment} {app : App}
    (hwire : wire cfg env = .ok app) {pt : PhaseType} {adapter : Adapter}
    (hadapter : cfg.dispatcher.ownAdapter (cfg.dispatcher.configuredProvider pt) = some adapter)
    (req : Request) (hreq : req.phaseType = pt.toString) :
    app.dispatcher.dispatch req = perform (⟨adapter, req⟩ : AdapterCall Adapter) ↔
      (cfg.dispatcher.override pt = some "opencode" → cfg.dispatcher.opencodeReachable) := by
  rw [WrappingDispatcher.dispatch_eq, hreq, wire_spec hwire]
  refine ⟨fun hsame hoverride => ?_, fun hreachable => by
    rw [DispatcherConfig.adapterFor_eq hadapter hreachable]⟩
  by_contra hunreachable
  obtain ⟨hother, hown⟩ := not_or.mp hunreachable
  obtain ⟨own, hown⟩ := Option.ne_none_iff_exists'.mp hown
  -- The phase goes to the default, whose adapter is not the one of opencode.
  injection hsame with hcall
  injection hcall with hsame
  rw [DispatcherConfig.adapterFor_of_opencode hoverride hother, hown, Option.getD_some] at hsame
  rw [DispatcherConfig.configuredProvider, hoverride, Option.getD_some,
    DispatcherConfig.ownAdapter, if_pos rfl, ← hsame] at hadapter
  exact DispatcherConfig.ownAdapter_ne_opencode hother _ (hown.trans hadapter.symm)

/-- An operator who has ollama as the default and opencode for one phase. -/
def ollamaWithOpencodeVerify : Config where
  dispatcher := {
    opencode := { cmd := "opencode" }
    provider := "ollama"
    providerByPhase := [("verify", "opencode"), ("apply", "aider")]
    ollama := { cmd := "ollama", model := "deepseek-r1:7b" }
    aider := { cmd := "aider" } }

def phaseRequest (pt : PhaseType) : Request where
  prompt := ""
  worktreePath := "."
  timeoutMS := 180000
  envelopeOut := "stdout-fenced-json"
  phaseType := pt.toString
  modelOverride := ""

theorem dispatch_routed_apply :
    ∃ app, wire ollamaWithOpencodeVerify {} = .ok app ∧
      app.dispatcher.dispatch (phaseRequest .apply) =
        perform (⟨.aider ollamaWithOpencodeVerify.dispatcher.aider, phaseRequest .apply⟩ :
          AdapterCall Adapter) :=
  ⟨_, rfl, (@dispatch_routed_iff ollamaWithOpencodeVerify {} _ rfl .apply _ (by decide)
    (phaseRequest .apply) rfl).mpr (by decide)⟩

/-- Verify is set to opencode, which is always there, and its requests go to ollama. -/
theorem opencode_override_unreachable :
    ollamaWithOpencodeVerify.dispatcher.configuredProvider .verify = "opencode" ∧
    ollamaWithOpencodeVerify.dispatcher.ownAdapter "opencode" =
      some (.opencode ollamaWithOpencodeVerify.dispatcher.opencode) ∧
    ∃ app, wire ollamaWithOpencodeVerify {} = .ok app ∧
      app.dispatcher.dispatch (phaseRequest .verify) =
        perform (⟨.ollama ollamaWithOpencodeVerify.dispatcher.ollama, phaseRequest .verify⟩ :
          AdapterCall Adapter) :=
  ⟨by decide, by decide, _, rfl, rfl⟩

end SophiaOrchestrator.Dispatcher
