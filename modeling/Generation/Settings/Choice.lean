/-! Values chosen from a short list, each named by the token that users type and files hold. -/
namespace Generation

class Choice (α : Type) where
  all : List α
  token : α → String
  find_token : ∀ a, all.find? (token · == token a) = some a

namespace Choice
variable {α : Type} [Choice α]

/-- The value of a token. Tokens are compared exactly. -/
def ofToken? (t : String) : Option α := all.find? (token · == t)

@[simp] theorem ofToken?_token (a : α) : ofToken? (token a) = some a := find_token a

theorem token_of_ofToken? {t : String} {a : α} (h : ofToken? t = some a) : token a = t := by
  simpa using List.find?_some h

variable (α) in
/-- Every token, in the order in which they are listed to users. -/
def tokens : List String := (all : List α).map token

end Choice

inductive SamplingMode where
  | greedy
  deriving DecidableEq

inductive Guardrails where
  | default
  | permissive
  deriving DecidableEq

/-- The tools that come with the model. -/
inductive Tool where
  | shell
  | fileRead
  deriving DecidableEq

inductive ToolApproval where
  | ask
  | auto
  deriving DecidableEq

inductive OutputFormat where
  | text
  | json
  deriving DecidableEq

inductive Language where
  | japanese
  | english
  deriving DecidableEq

instance : Choice SamplingMode where
  all := [.greedy]
  token | .greedy => "greedy"
  find_token a := by cases a; rfl

instance : Choice Guardrails where
  all := [.default, .permissive]
  token
    | .default => "default"
    | .permissive => "permissive"
  find_token a := by cases a <;> rfl

instance : Choice Tool where
  all := [.shell, .fileRead]
  token
    | .shell => "shell"
    | .fileRead => "file-read"
  find_token a := by cases a <;> rfl

instance : Choice ToolApproval where
  all := [.ask, .auto]
  token
    | .ask => "ask"
    | .auto => "auto"
  find_token a := by cases a <;> rfl

instance : Choice OutputFormat where
  all := [.text, .json]
  token
    | .text => "text"
    | .json => "json"
  find_token a := by cases a <;> rfl

instance : Choice Language where
  all := [.japanese, .english]
  token
    | .japanese => "ja"
    | .english => "en"
  find_token a := by cases a <;> rfl

/-- The instruction that asks for answers in a language. -/
def Language.hint : Language → String
  | .japanese => "Respond in Japanese."
  | .english => "Respond in English."

end Generation
