import CodeOutline.Proofs.Fault
import CodeOutline.Proofs.Json.Read
import CodeOutline.Proofs.Text.Line
import CodeOutline.Protocol.Session
import Mathlib.Data.List.Forall2

namespace CodeOutline

open Json (Plain)

namespace Session

variable {service : Service} {line : String} {outcome : Except ProtocolError Json}

/-- What can become of a request. -/
inductive Outcome (service : Service) : Except ProtocolError Json → Prop where
  | greeted (text : String) : Outcome service (.ok (.string text))
  | rejected {error : ProtocolError} (h : ∀ refusal, error ≠ .refused refusal) :
      Outcome service (.error error)
  | compiled {language : String} {code : Option String} {result : AnalysisResult}
      (h : service.request language code = .ok result) : Outcome service (.ok result.toJson)
  | refused {language : String} {code : Option String} {error : RequestError}
      (h : service.request language code = .error error) : Outcome service (.error (.refused error))

theorem Outcome.plain (h : Outcome service outcome) : Plain (response outcome) := by
  have hsuccess {data : Json} (hd : Plain data) : Plain (response (.ok data)) := by
    refine .object ?_
    simp only [List.forall_mem_cons]
    exact ⟨hd.sorted, .string _, fun _ hm => absurd hm List.not_mem_nil⟩
  have herror (error : ProtocolError) : Plain (response (.error error)) := by
    refine .object ?_
    simp only [List.forall_mem_cons]
    exact ⟨.string _, .string _, fun _ hm => absurd hm List.not_mem_nil⟩
  cases h with
  | greeted text => exact hsuccess (.string text)
  | rejected => exact herror _
  | compiled => exact hsuccess (AnalysisResult.plain_toJson _)
  | refused => exact herror _

/-- The lines of a text, without their ends. -/
def lines (received : String) : List String :=
  (Text.pieces (· = '\n') received.toList).map String.ofList

end Session

/-- A service for C, which runs nothing and computes addresses of any size. -/
def Service.outlines : Service where
  pipeline?
    | .c => some { Pipeline.outline none with symbols? := fun text => some (symbolTable text) }
    | .javaScript => none

/-- Two requests with a blank line between them. What follows the second one is not answered. -/
def Session.sample : String :=
  "\x7b\"command\":\"COMPILE\",\"params\":\x7b\"code\":\"int x;\"\x7d\x7d\r\n \n" ++
    "[\"SHUTDOWN\",null]\nPING"

end CodeOutline
