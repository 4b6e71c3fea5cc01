/-!
# `PipeQuery.Mode`: the stack of lexical contexts

Which tokens a text can form depends on the command it stands in, so the lexer keeps a stack of
modes. A frame that was opened by `[` is marked: `]` closes the latest marked frame, and the end
of the text leaves marked frames standing, which tells a bracket left open from a command that
simply ended.

The bottom frame is not stored. It is always the unmarked `default` frame, so a stack cannot run
empty and `above` is all there is to know.
-/

set_option autoImplicit false

namespace PipeQuery

/-- A lexical context: what a run of characters means. -/
inductive Mode where
  | default
  | expression
  | explain
  | sources
  | project
  | rename
  | enrich
  | enrichField
  | mvExpand
  | info
  | setting
  | lookup
  | lookupField
  | metrics
  | closingMetrics
deriving DecidableEq, Repr, Inhabited

/-- A mode on the stack, and whether a `[` opened it. -/
structure Frame where
  mode : Mode
  bracket : Bool
deriving DecidableEq, Repr

/-- The frames above the bottom one, the top first. -/
structure ModeStack where
  above : List Frame
deriving DecidableEq, Repr

namespace ModeStack

/-- Only the bottom frame. -/
def bottom : ModeStack :=
  ⟨[]⟩

instance : Inhabited ModeStack := ⟨bottom⟩

/-- The mode in force. -/
def current (s : ModeStack) : Mode :=
  match s.above with
  | [] => .default
  | frame :: _ => frame.mode

/-- All modes, the bottom one first. -/
def modes (s : ModeStack) : List Mode :=
  .default :: (s.above.reverse.map Frame.mode)

/-- Enters a mode. -/
def push (s : ModeStack) (mode : Mode) : ModeStack :=
  ⟨⟨mode, false⟩ :: s.above⟩

/-- Enters a mode that lasts until the matching `]`. -/
def pushBracket (s : ModeStack) (mode : Mode) : ModeStack :=
  ⟨⟨mode, true⟩ :: s.above⟩

/-- Replaces the top mode and keeps its mark. The bottom frame is not replaced: there the mode is
entered instead. -/
def switch (s : ModeStack) (mode : Mode) : ModeStack :=
  match s.above with
  | [] => s.push mode
  | frame :: rest => ⟨{ frame with mode := mode } :: rest⟩

/-- Leaves frames until a `default` frame is on top, as a pipe does. -/
def popToDefault (s : ModeStack) : ModeStack :=
  ⟨s.above.dropWhile fun frame => frame.mode ≠ .default⟩

/-- Some frame was opened by a `[`. -/
def hasBracket (s : ModeStack) : Bool :=
  s.above.any Frame.bracket

/-- Leaves the latest bracket frame and all above it; nothing happens when none is open. -/
def closeBracket (s : ModeStack) : ModeStack :=
  if s.hasBracket then ⟨(s.above.dropWhile fun frame => !frame.bracket).tail⟩ else s

/-- Leaves every frame but the bottom one. -/
def reset (_ : ModeStack) : ModeStack :=
  bottom

/-- Leaves the frames above the latest bracket frame, as the end of the text does. -/
def unwind (s : ModeStack) : ModeStack :=
  ⟨s.above.dropWhile fun frame => !frame.bracket⟩

end ModeStack

end PipeQuery
