import AgentLab.Config.Profile

/-!
# What the backend runs

`settings.py`: the arguments of `mlx_lm.server` that a profile stands for.
-/

namespace AgentLab.Backend

open Python Config

/-- Never listen beyond this machine. -/
def HOST : String := "127.0.0.1"

def LOG_LEVEL : String := "INFO"

def NO_BROWSER_ORIGINS : String := "none"

def AUTO_TOOL_PARSER : String := "auto"

structure LaunchSettings where
  profile : String
  modelId : String
  modelDir : String
  port : ℤ
  /-- In bytes; the launch wrapper stops the server above this. -/
  memoryLimit : ℤ
  toolParser : Option String
  serverArgs : List String

/-- The chat template arguments that the backend starts with. -/
def templateArgs (backend : BackendConfig) : Dict Json :=
  [(str "enable_thinking", .bool backend.enableThinking)]

/-- `launch_settings`; `modelDir` is where `pull` keeps a model, `dumps` is `json.dumps`, `repr` the
text of a float. -/
def launchSettings (modelDir : String → String) (dumps : Json → String) (repr : PyFloat → String)
    (profile : Profile) : LaunchSettings :=
  let backend := profile.backend
  let directory := modelDir profile.model.id
  { profile := profile.name
    modelId := profile.model.id
    modelDir := directory
    port := backend.port
    memoryLimit := backend.metalMemoryLimit
    toolParser := if backend.toolParser = AUTO_TOOL_PARSER then none else backend.toolParser
    serverArgs :=
      ["--model", directory,
        "--host", HOST,
        "--port", toString backend.port,
        "--allowed-origins", NO_BROWSER_ORIGINS,
        "--log-level", LOG_LEVEL,
        "--decode-concurrency", "1",
        "--prompt-concurrency", "1",
        "--prefill-step-size", toString backend.prefillStepSize,
        "--prompt-cache-size", toString backend.promptCacheSize,
        "--prompt-cache-bytes", toString backend.promptCacheBytes,
        "--chat-template-args", dumps (.obj (templateArgs backend)),
        "--temp", repr backend.temperature,
        "--top-p", repr backend.topP,
        "--top-k", toString backend.topK,
        "--max-tokens", toString profile.gateway.maxOutputTokens] }

/-- Whatever the profile, the options are these, each given once and with a value behind it: among
them those that keep other machines and browsers out, and those that the gateway relies on. -/
theorem launchSettings_options (modelDir : String → String) (dumps : Json → String)
    (repr : PyFloat → String) (profile : Profile) : ∃ options : List (String × String),
    (launchSettings modelDir dumps repr profile).serverArgs =
      options.flatMap (fun option => [option.1, option.2]) ∧
    (options.map Prod.fst).Nodup ∧
    ("--host", HOST) ∈ options ∧ ("--allowed-origins", NO_BROWSER_ORIGINS) ∈ options ∧
    ("--chat-template-args", dumps (.obj (templateArgs profile.backend))) ∈ options ∧
    ("--max-tokens", toString profile.gateway.maxOutputTokens) ∈ options := by
  refine ⟨[(_, _), (_, _), (_, _), (_, _), (_, _), (_, _), (_, _), (_, _), (_, _), (_, _), (_, _),
    (_, _), (_, _), (_, _), (_, _)], rfl, by simp, ?_⟩
  simp [HOST, NO_BROWSER_ORIGINS]

end AgentLab.Backend
