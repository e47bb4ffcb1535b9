import AgentLab.Gateway.Translate

/-!
# Chat requests

What `Gateway.chat` computes between its suspension points: who the request comes from, what is
counted for it, and what is sent to the backend.
-/

namespace AgentLab.Gateway

open Python

def RETRY_AFTER_SECONDS : ℕ := 30

/-- `_busy`. -/
def busy : ApiError :=
  ⟨429, str "The server is busy with other requests; try again in " ++ natStr RETRY_AFTER_SECONDS ++
    str " seconds.", str "rate_limit_exceeded", none, str "rate_limit_error"⟩

/-- `lower` of a character; that of a character beyond ASCII is never an ASCII letter here, since
header values are decoded as Latin-1. -/
def lower (c : CodePoint) : CodePoint := if 0x41 ≤ c.val && c.val ≤ 0x5A then c + 32 else c

def unauthorized : ApiError :=
  ⟨401, str "Incorrect or missing API key. Send it as `Authorization: Bearer <key>`.",
    str "invalid_api_key", none, str "invalid_request_error"⟩

/-- `Gateway.authenticate` of the Authorization header; `check` is `KeyStore.check`, with the keys
that its file holds now. -/
def authenticate (check : Str → Except PyExc (Option Str)) (header : Str) :
    Except (Raised ApiError) Str :=
  let scheme := header.takeWhile (· ≠ 0x20)
  let key := (header.dropWhile (· ≠ 0x20)).drop 1
  let name := if scheme.map lower = str "bearer" ∧ key ≠ [] then check (strip key) else .ok none
  match name with
  | .error x => .error (.builtin x)
  | .ok none => .error (.own unauthorized)
  | .ok (some name) => .ok name

/-- A name is only ever that of a key. -/
theorem authenticate_ok {check : Str → Except PyExc (Option Str)} {header name : Str}
    (h : authenticate check header = .ok name) : ∃ key, check key = .ok (some name) := by
  unfold authenticate at h
  dsimp only at h
  split_ifs at h
  split at h <;> cases h
  next hname => exact ⟨_, hname⟩

/-- What the chat template is applied to. -/
structure PromptInput where
  messages : List Json
  tools : Option (List Json)
  templateArgs : Dict Json

/-- The arguments of `counter.count`. -/
def countInput (p : Prepared) : PromptInput := ⟨p.messages, p.tools, p.templateArgs⟩

/-- `prepared.body["max_tokens"] = maxTokens`: the body that is sent to the backend. -/
def forwarded (p : Prepared) (maxTokens : ℤ) : Dict Json :=
  Dict.set p.body (str "max_tokens") (.int maxTokens)

end AgentLab.Gateway
