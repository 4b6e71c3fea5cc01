/-!
# `PipeQuery.Options.Basic`: how a query is read

Plain data, so that options can be built in place or read from a file.
-/

set_option autoImplicit false

namespace PipeQuery

/-- How a query is read. -/
structure Options where
  /-- The preview verbs `INLINESTATS`, `LOOKUP`, `MATCH` and `METRICS` are known. -/
  devFeatures : Bool
  /-- The levels of nesting that expressions and subqueries may have. -/
  maxDepth : Nat
  /-- The number of bytes that a query may have where this is checked. -/
  maxInputBytes : Nat
deriving DecidableEq, Repr

namespace Options

/-- No previews, 128 levels, one mebibyte. -/
def default : Options :=
  ⟨false, 128, 1024 * 1024⟩

instance : Inhabited Options := ⟨default⟩

/-- Why options cannot be used. -/
inductive Invalid where
  | zeroDepth
  | zeroInputBytes
deriving DecidableEq, Repr

/-- The reason in words. -/
def Invalid.message : Invalid → String
  | .zeroDepth => "max_depth must be at least 1"
  | .zeroInputBytes => "max_input_bytes must be at least 1"

/-- Options that come from outside must leave room for something. -/
def validate (o : Options) : Except Invalid Unit :=
  if o.maxDepth = 0 then .error .zeroDepth
  else if o.maxInputBytes = 0 then .error .zeroInputBytes
  else .ok ()

end Options

end PipeQuery
