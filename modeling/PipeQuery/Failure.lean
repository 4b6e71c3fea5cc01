import PipeQuery.Diagnostic.Basic
import PipeQuery.Options.Reader

/-!
# `PipeQuery.Failure`: why nothing came out

A query that is too long or wrong, options that cannot be used, a file that cannot be read. Each
failure has a wording, an exit code and, where the user can do something, a hint.
-/

set_option autoImplicit false

namespace PipeQuery

/-- Why a file or a stream gave no text. -/
inductive ReadFault where
  | missing
  | directory
  | notText
  | other (message : String)
deriving DecidableEq, Repr

/-- The fault in words. -/
def ReadFault.message : ReadFault → String
  | .missing => "No such file or directory (os error 2)"
  | .directory => "Is a directory (os error 21)"
  | .notText => "stream did not contain valid UTF-8"
  | .other message => message

/-- Why nothing came out. -/
inductive Failure where
  | inputTooLong (length limit : Nat)
  | invalidQuery (diagnostics : List Diagnostic)
  | config (reason : Options.Invalid)
  | io (fault : ReadFault)
  | json (message : String)
deriving DecidableEq, Repr

namespace Failure

/-- Some diagnostics on one line: the first, and the number of those behind it. -/
def summary : List Diagnostic → String
  | [] => "invalid query"
  | [d] => d.render
  | d :: ds => d.render ++ " (and " ++ toString ds.length ++ " more)"

/-- The failure in words. -/
def message : Failure → String
  | .inputTooLong length limit =>
    "query is " ++ toString length ++ " bytes, limit is " ++ toString limit
  | .invalidQuery diagnostics => summary diagnostics
  | .config reason => "invalid configuration: " ++ reason.message
  | .io fault => "I/O error: " ++ fault.message
  | .json message => "JSON error: " ++ message

/-- The user can mend it in the query or in the options. -/
def isRecoverable : Failure → Bool
  | .inputTooLong .. | .invalidQuery _ | .config _ => true
  | .io _ | .json _ => false

/-- What the user can do about it. -/
def suggestion? : Failure → Option String
  | .inputTooLong .. =>
    some "Shorten the query or raise max_input_bytes in the parser configuration"
  | .invalidQuery _ => some "Fix the reported positions and try again"
  | .config _ => some "Check the configuration file against the documented keys"
  | .io _ | .json _ => none

/-- The exit code of a program that ends with it. -/
def exitCode : Failure → Nat
  | .invalidQuery _ => 1
  | .inputTooLong .. | .config _ => 2
  | .io _ | .json _ => 3

/-- The diagnostics that it carries. -/
def diagnostics : Failure → List Diagnostic
  | .invalidQuery diagnostics => diagnostics
  | _ => []

end Failure

/-- The options that a text holds, if they can be used. -/
def Options.ofText (text : String) : Except Failure Options :=
  match read text with
  | .error problem => .error (.json (problem.message text))
  | .ok o =>
    match o.validate with
    | .error reason => .error (.config reason)
    | .ok () => .ok o

end PipeQuery
