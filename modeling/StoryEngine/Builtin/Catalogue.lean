import StoryEngine.Registry
/-!
# StoryEngine.Builtin.Catalogue

The macros that every engine comes with: their names, and how they are called.
-/

namespace StoryEngine

/-- What a built-in macro does. -/
inductive Builtin where
  /-- Evaluates an expression and prints its value. -/
  | print
  /-- Evaluates an expression for what it sets. -/
  | set
  /-- Removes variables. -/
  | unset
  /-- Renders the first clause whose condition holds. -/
  | choose
  /-- Renders its contents again and again. -/
  | loop
  /-- Leaves or continues a loop. -/
  | loopControl
  /-- Gives its contents their own variables. -/
  | capture
  /-- Makes an element that can be clicked. -/
  | link
  /-- Renders its contents at intervals. -/
  | «repeat»
  /-- Ends the interval whose contents are being rendered. -/
  | stop
  /-- Renders its clauses one after another, each after a delay. -/
  | timed
  /-- Types its contents out letter by letter. -/
  | type
deriving Repr, DecidableEq

/-- The definition of a built-in macro with the given handler. -/
def Builtin.definition {η : Type} (handler : η) : Builtin → Definition η
  | print => { handler := handler, skipArgs := true }
  | set => { handler := handler, skipArgs := true }
  | unset => { handler := handler, skipArgs := true }
  | choose => { handler := handler, skipArgs := true, tags := .children ["elseif", "else"] }
  | loop => { handler := handler, skipArgs := true, tags := .closing }
  | loopControl => { handler := handler, skipArgs := true }
  | capture => { handler := handler, skipArgs := true, tags := .closing }
  | link => { handler := handler, isAsync := true, tags := .closing }
  | «repeat» => { handler := handler, isAsync := true, tags := .closing }
  | stop => { handler := handler, skipArgs := true }
  | timed => { handler := handler, isAsync := true, tags := .children ["next"] }
  | type => { handler := handler, isAsync := true, tags := .closing }

/-- The names that each built-in macro is registered under, in the order of registration. -/
def Builtin.names : List (List String × Builtin) := [
  (["print", "=", "-"], print),
  (["set"], set),
  (["unset"], unset),
  (["if"], choose),
  (["for"], loop),
  (["break", "continue"], loopControl),
  (["capture"], capture),
  (["link", "button"], link),
  (["repeat"], «repeat»),
  (["stop"], stop),
  (["timed"], timed),
  (["type"], type)]

/-- A registry with the built-in macros, each with the handler made for it. -/
def Registry.ofBuiltins {η : Type} (handler : Builtin → η) : Registry η :=
  let named := Builtin.names.foldl
    (fun (r : Registry η) (names, builtin) =>
      (r.add names (builtin.definition (handler builtin))).2) {}
  (named.addAlias ["run"] "set").2

end StoryEngine
