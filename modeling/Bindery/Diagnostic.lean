import Bindery.Diagnostic.Message
import Bindery.Text.Placeholder
import Bindery.Text.Span

/-!
# Diagnostics

A diagnostic is a message with its arguments filled in, and the place it is about. Diagnostics are
kept in the order in which they were reported, in a `DiagnosticQueue`.
-/

namespace Bindery

structure Diagnostic where
  file : Option String
  span : Option Span
  message : Message
  text : String
deriving DecidableEq, Repr

namespace Diagnostic

/-- A diagnostic about nowhere in particular. -/
def unplaced (message : Message) (args : List String) : Diagnostic :=
  ⟨none, none, message, Text.fill message.template args⟩

/-- A diagnostic about a place in a file. -/
def placed (file : String) (span : Span) (message : Message) (args : List String) : Diagnostic :=
  ⟨some file, some span, message, Text.fill message.template args⟩

def isError (d : Diagnostic) : Bool := d.message.category = .error

/-- The place in front of a diagnostic's line. -/
def placeText (d : Diagnostic) : String :=
  match d.file, d.span with
  | none, _ => ""
  | some file, none => file ++ ": "
  | some file, some span => file ++ "(" ++ toString span.start ++ "): "

/-- The line that is shown, `main(10): error SB0017: ...`. -/
def line (d : Diagnostic) : String :=
  d.placeText ++ d.message.category.text ++ " " ++ d.message.codeText ++ ": " ++ d.text

end Diagnostic

structure DiagnosticQueue where
  items : List Diagnostic := []
deriving DecidableEq, Repr

namespace DiagnosticQueue

variable (q : DiagnosticQueue)

def push (d : Diagnostic) : DiagnosticQueue := ⟨q.items ++ [d]⟩

def append (other : DiagnosticQueue) : DiagnosticQueue := ⟨q.items ++ other.items⟩

def size : Nat := q.items.length

def isEmpty : Bool := q.items.isEmpty

def errors : List Diagnostic := q.items.filter (·.isError)

def warnings : List Diagnostic := q.items.filter (!·.isError)

def errorCount : Nat := q.errors.length

def hasErrors : Bool := q.items.any (·.isError)

def containsCode (code : Nat) : Bool := q.items.any fun d => d.message.code = code

def truncate (size : Nat) : DiagnosticQueue := ⟨q.items.take size⟩

@[simp] theorem items_push (d : Diagnostic) : (q.push d).items = q.items ++ [d] := rfl

@[simp] theorem items_append (other : DiagnosticQueue) :
    (q.append other).items = q.items ++ other.items := rfl

end DiagnosticQueue
end Bindery
