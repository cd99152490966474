import HardenLlm.Runtime.Model.Types
/-!
# The bodies of Chat and Responses answers

`responses.go`: what a client of the gateway is sent of a result. The
identifiers made from the call, the time of the answer, its model and the
diagnostics are left out; the identifier of a call that came without one
is left out too.
-/

namespace HardenLlm.Gateway

open HardenLlm.Runtime

variable {A : Type}

/-- **The text and the tool calls of a result.** A result with an original
text shows that text. -/
def outputContent (result : CallRecord A) : Option (String × List AssistantToolCall) :=
  let shown (content : String) : String :=
    if result.assistantText ≠ "" then result.assistantText else content
  match result.output with
  | .text s => some (shown s, [])
  | .assistant content calls => some (shown content, calls)
  | .none => some (shown "null", [])
  | .value v => some (shown v.encode, [])
  | .unencodable => if result.assistantText = "" then none else some (result.assistantText, [])

/-! ## Chat -/

structure ChatToolCall where
  id : String
  function : FunctionCall
  deriving DecidableEq, Repr

structure ChatUsage where
  promptTokens : ℤ
  completionTokens : ℤ
  totalTokens : ℤ
  cachedTokens : Option ℤ
  reasoningTokens : Option ℤ
  deriving DecidableEq, Repr

/-- `int64` addition. -/
def addTokens (n m : ℤ) : ℤ := (n + m).bmod 18446744073709551616

def chatUsage (u : Usage) : Option ChatUsage :=
  if u.status ≠ .complete then none
  else some
    { promptTokens := u.promptTokens
      completionTokens := u.completionTokens
      totalTokens := addTokens u.promptTokens u.completionTokens
      cachedTokens := if 0 < u.cacheReadTokens then some u.cacheReadTokens else none
      reasoningTokens := if 0 < u.reasoningTokens then some u.reasoningTokens else none }

/-- Why a chat answer ended. -/
inductive FinishReason
  | stop
  | toolCalls
  deriving DecidableEq, Repr

/-- **A chat answer.** Its content is null beside tool calls without
text. -/
structure ChatBody where
  content : Option String
  toolCalls : List ChatToolCall
  finishReason : FinishReason
  usage : Option ChatUsage
  deriving DecidableEq, Repr

def chatResponse (result : CallRecord A) (includeUsage : Bool) : Option ChatBody :=
  (outputContent result).map fun (content, calls) =>
    { content := if content ≠ "" ∨ calls = [] then some content else none
      toolCalls := calls.map fun call => ⟨call.id, call.function⟩
      finishReason := if calls = [] then .stop else .toolCalls
      usage := if includeUsage then chatUsage result.accounting.result.usage else none }

/-! ## Responses -/

inductive ResponseItem
  | message (text : String)
  | functionCall (itemID callID name arguments : String)
  deriving DecidableEq, Repr

structure ResponsesUsage where
  inputTokens : ℤ
  outputTokens : ℤ
  totalTokens : ℤ
  cachedTokens : ℤ
  reasoningTokens : ℤ
  deriving DecidableEq, Repr

def responsesUsage (u : Usage) : Option ResponsesUsage :=
  if u.status ≠ .complete then none
  else some
    { inputTokens := u.promptTokens
      outputTokens := u.completionTokens
      totalTokens := addTokens u.promptTokens u.completionTokens
      cachedTokens := u.cacheReadTokens
      reasoningTokens := u.reasoningTokens }

/-- **A Responses answer.** -/
structure ResponsesBody where
  output : List ResponseItem
  outputText : String
  usage : Option ResponsesUsage
  deriving DecidableEq, Repr

def responsesResponse (result : CallRecord A) : Option ResponsesBody :=
  (outputContent result).map fun (content, calls) =>
    { output := (if content ≠ "" ∨ calls = [] then [.message content] else [])
        ++ calls.map fun call =>
          .functionCall call.itemID call.id call.function.name call.function.arguments
      outputText := content
      usage := responsesUsage result.accounting.result.usage }

end HardenLlm.Gateway
