import StoryEngine.Argument.List
import StoryEngine.Delay
import StoryEngine.Registry
/-!
# StoryEngine.Engine.Failure

Why something that an engine does can fail.
-/

namespace StoryEngine

/-- Why a context cannot be made or changed. -/
inductive ContextError where
  /-- Something that every context needs is not given. -/
  | missing (property : String)
  | invalidVariable (error : InvalidVariable)
deriving Repr, DecidableEq

/-- The wording of the error. -/
def ContextError.message : ContextError → String
  | missing property => "context object missing required properties: " ++ property
  | invalidVariable error => error.message

/-- Why a macro or deferred work failed. -/
inductive Failure where
  | registry (error : RegistryError)
  | context (error : ContextError)
  | argument (error : ArgumentError)
  | expression (error : ExprError)
  | time (error : TimeError)
  /-- For the reason given in words. -/
  | message (text : String)

/-- The wording of the failure: that of its reason. -/
def Failure.wording : Failure → String
  | registry error => error.message
  | context error => error.message
  | argument error => error.message
  | expression error => error.message
  | time error => error.message
  | message text => text

end StoryEngine
