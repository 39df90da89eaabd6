import CodeOutline.Protocol.Request
import CodeOutline.Render.Encode

namespace CodeOutline

inductive ProtocolError where
  | malformed
  | malformedParameters
  | unknownCommand (command : String)
  | refused (error : RequestError)

def ProtocolError.message : ProtocolError → String
  | .malformed => "Invalid JSON format"
  | .malformedParameters => "Invalid COMPILE params"
  | .unknownCommand command => "Unknown command: " ++ command
  | .refused error => error.message

namespace Request

def shutdownCommand : String := "SHUTDOWN"

def compile (service : Service) (parameters : Option Json) : Except ProtocolError Json := do
  let parameters ← match parameters with
    | none => .ok {}
    | some value =>
      match CompileParameters.ofJson? value with
      | some parameters => .ok parameters
      | none => .error .malformedParameters
  match service.request (parameters.language.getD Language.c.id) parameters.code with
  | .ok result => .ok result.toJson
  | .error error => .error (.refused error)

def run (service : Service) (request : Request) : Except ProtocolError Json :=
  if request.command = "PING" then .ok (.string "PONG")
  else if request.command = "COMPILE" then compile service request.parameters
  else if request.command = shutdownCommand then .ok (.string "Shutting down...")
  else .error (.unknownCommand request.command)

end Request

namespace Session

def answer (service : Service) (line : String) : Except ProtocolError Json :=
  match Request.ofLine? line with
  | some request => request.run service
  | none => .error .malformed

def response : Except ProtocolError Json → Json
  | .ok data => .object [("data", data.sorted), ("status", .string "success")]
  | .error error => .object [("message", .string error.message), ("status", .string "error")]

def endsWith (line : String) : Bool :=
  (Request.ofLine? line).any fun request => request.command = Request.shutdownCommand

/-- The responses to the lines of a session. -/
def responses (service : Service) : List String → List Json
  | [] => []
  | line :: lines =>
    let line := Text.trim line
    if line.isEmpty then responses service lines
    else
      response (answer service line) ::
        (if endsWith line then [] else responses service lines)

/-- What is written back on a connection on which the given text is received. -/
def reply (service : Service) (received : String) : String :=
  let lines := (Text.pieces (· = '\n') received.toList).map String.ofList
  String.join ((responses service lines).map fun response => response.compact ++ "\n")

end Session

end CodeOutline
