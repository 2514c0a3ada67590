import Lox.Diagnostic
import Lox.Report

/-!
# Failures

Why a file has no value: it cannot be read, it is malformed, or its evaluation fails.
-/

namespace Lox

/-- The causes of a failed operation on a file or a stream. -/
inductive IoCause where
  | notFound
  | permissionDenied
  | connectionRefused
  | alreadyExists
  | wouldBlock
  | notADirectory
  | isADirectory
  | invalidInput
  | invalidData
  | timedOut
  | writeZero
  | interrupted
  | unsupported
  | unexpectedEof
  | outOfMemory
  | brokenPipe
  | other
  | invalidFilename
  deriving DecidableEq, Repr, Inhabited

def IoCause.text : IoCause → String
  | notFound => "entity not found"
  | permissionDenied => "permission denied"
  | connectionRefused => "connection refused"
  | alreadyExists => "entity already exists"
  | wouldBlock => "operation would block"
  | notADirectory => "not a directory"
  | isADirectory => "is a directory"
  | invalidInput => "invalid input parameter"
  | invalidData => "invalid data"
  | timedOut => "timed out"
  | writeZero => "write zero"
  | interrupted => "operation interrupted"
  | unsupported => "unsupported"
  | unexpectedEof => "unexpected end of file"
  | outOfMemory => "out of memory"
  | brokenPipe => "broken pipe"
  | other => "other error"
  | invalidFilename => "invalid filename"

inductive Failure where
  | malformed (path src : String) (errors : List SyntaxError)
  | runtime (path src : String) (error : RuntimeError)
  | unreadable (cause : IoCause)
  deriving DecidableEq, Inhabited

namespace Failure

def message : Failure → String
  | malformed .. => "failed to parse source code"
  | runtime .. => "evaluation failed"
  | unreadable _ => "IO operation failed"

/-- The reports behind the failure. -/
def reports : Failure → List Report
  | malformed _ _ errors => errors.map .malformed
  | runtime _ _ error => [.runtime error]
  | unreadable _ => []

/-- The reports as plain text, one after the other. -/
def plain : Failure → String
  | malformed _ _ errors => "\n".intercalate (errors.map SyntaxError.text)
  | runtime _ _ error => error.text
  | f@(unreadable cause) => f.message ++ ": " ++ cause.text

/-- A message at a place of the text. A span that does not belong to the text is moved into it. -/
def locate (path src message : String) (span : Span) : Location :=
  ⟨src, path, some message, span.clamp src.utf8ByteSize⟩

/-- What is shown for an error in how a text is written. -/
def diagnose (path src : String) (e : SyntaxError) : Diagnostic :=
  match e.span with
  | some span => ⟨"Syntax error", "", some (locate path src e.message span)⟩
  | none => ⟨"Syntax error", e.text, none⟩

def diagnostics : Failure → List Diagnostic
  | malformed path src errors => errors.map (diagnose path src)
  | runtime path src error =>
    [⟨"Runtime error", "[line " ++ toString error.token.line ++ "]",
      some (locate path src error.message error.token.span)⟩]
  | unreadable cause => [⟨"Standard IO error", cause.text, none⟩]

/-- All diagnostics, each with an empty line behind it. -/
def paint (f : Failure) : Paint := f.diagnostics.flatMap fun d => d.paint ++ Paint.plain "\n"

end Failure

end Lox
