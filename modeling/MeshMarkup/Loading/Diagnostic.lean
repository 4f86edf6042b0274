import MeshMarkup.Loading.Log

namespace MeshMarkup

structure Diagnostic where
  severity : Severity
  message : String
  component : String
  details : Json
  correlationId : Option String

inductive DiagnosticError where
  | emptyMessage
  | emptyComponent
  deriving DecidableEq

def DiagnosticError.text : DiagnosticError → String
  | emptyMessage => "Diagnostic message cannot be empty"
  | emptyComponent => "Diagnostic component cannot be empty"

namespace Diagnostic

def checked (d : Diagnostic) : Except DiagnosticError Diagnostic :=
  if d.message.isEmpty then .error .emptyMessage
  else if d.component.isEmpty then .error .emptyComponent
  else .ok d

def toJson (d : Diagnostic) : Json :=
  .object
    [("severity", .text d.severity.name), ("message", .text d.message),
     ("component", .text d.component),
     ("details", if d.details.truthy then d.details else .object [])]

end Diagnostic

end MeshMarkup
