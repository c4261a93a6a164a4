import StoryEngine.Delay
import StoryEngine.Lexer.Runs
import StoryEngine.Play
import StoryEngine.Text.Word
import StoryEngine.Proofs.Engine.Arguments
import StoryEngine.Proofs.Engine.Closures
import StoryEngine.Proofs.Passage.Segmentation
import StoryEngine.Proofs.Play.Isolation
import StoryEngine.Proofs.Play.Termination
import StoryEngine.Proofs.Variables.Isolated
import StoryEngine.Proofs.Play.Ground
import StoryEngine.Proofs.Play.Texts
import StoryEngine.Proofs.Registry.Consistent
import StoryEngine.Proofs.Registry.Ownership
import StoryEngine.Proofs.Engine.Written
import StoryEngine.Proofs.Registry.Aliases
import StoryEngine.Proofs.Play.Delivery
import StoryEngine.Proofs.Expr.Frame
import StoryEngine.Proofs.Expr.Statements
import StoryEngine.Proofs.Play.Tracked
import StoryEngine.Proofs.Play.Debug
import StoryEngine.Proofs.Passage.Nesting
import StoryEngine.Proofs.Argument.Markup
import StoryEngine.Proofs.Engine.Choice
import StoryEngine.Proofs.Engine.Range
import StoryEngine.Proofs.Play.Schedule
import StoryEngine.Proofs.Play.TypedOut
import StoryEngine.Proofs.Play.Stopped
import StoryEngine.Proofs.Registry.Atomic
import StoryEngine.Proofs.Registry.Deletion
import StoryEngine.Proofs.Lexer.Lazy
import StoryEngine.Proofs.Lexer.Tokens
import StoryEngine.Proofs.Play.Ending
import StoryEngine.Proofs.Play.Heard
import StoryEngine.Proofs.Engine.VariableList
import StoryEngine.Proofs.Decimal.Time
import StoryEngine.Proofs.Display.Moved
import StoryEngine.Proofs.Play.Links
