import CodeOutline.Settings.Basic
import CodeOutline.Toml.Document

namespace CodeOutline

namespace Toml.Value

def text? : Value → Option String
  | .string text => some text
  | _ => none

/-- A natural number below a bound. -/
def nat? (bound : Nat) : Value → Option Nat
  | .integer number => if 0 ≤ number ∧ number < bound then some number.toNat else none
  | _ => none

def texts? : Value → Option (List String)
  | .array items => items.mapM text?
  | _ => none

/-- The value that a section gives to a field, by its name or, in a list, by its position. A section
that holds a date gives none, and other values are no sections. -/
def field? (name : String) (position : Nat) : Value → Option (Option Value)
  | .table _ entries => some (entries.lookup name)
  | .array items => some items[position]?
  | .tables elements => some (elements[position]?.map (.table .header))
  | .dateTime _ => some none
  | _ => none

/-- A field of a section, or its default if the section does not give it. -/
def fieldOr {α : Type} (value : Value) (name : String) (position : Nat) (fallback : α)
    (decode : Value → Option α) : Option α :=
  match value.field? name position with
  | none => none
  | some none => some fallback
  | some (some given) => decode given

end Toml.Value

open Toml (Value)

def ServerSettings.decode? (value : Value) : Option ServerSettings := do
  let fallback : ServerSettings := {}
  return {
    host := ← value.fieldOr "host" 0 fallback.host Value.text?
    port := ← value.fieldOr "port" 1 fallback.port (Value.nat? UInt16.size) }

def ToolSettings.decode? (value : Value) : Option ToolSettings := do
  let fallback : ToolSettings := {}
  return {
    compiler := ← value.fieldOr "c_compiler" 0 fallback.compiler Value.text?
    node := ← value.fieldOr "node" 1 fallback.node Value.text?
    permissionFlag := ← value.fieldOr "node_permission_flag" 2 fallback.permissionFlag Value.text?
    compileTimeout :=
      ← value.fieldOr "compile_timeout_secs" 3 fallback.compileTimeout (Value.nat? UInt64.size)
    runTimeout := ← value.fieldOr "run_timeout_secs" 4 fallback.runTimeout (Value.nat? UInt64.size)
    scratchParent := ← value.fieldOr "temp_dir" 5 none fun given => given.text?.map some
    extraFlags := ← value.fieldOr "extra_cflags" 6 fallback.extraFlags Value.texts? }

/-- The settings of a document, or nothing if it is malformed or a value does not fit. -/
def Settings.ofToml? (text : String) : Option Settings := do
  let document := Value.table .header (← Toml.parse? text)
  return {
    server := ← document.fieldOr "server" 0 {} ServerSettings.decode?
    tools := ← document.fieldOr "toolchain" 1 {} ToolSettings.decode? }

inductive SettingsError where
  | unreadable (path : String)
  | malformed
  | badPort (text : String)
  deriving DecidableEq, Repr

def SettingsError.message : SettingsError → String
  | .unreadable path => "Cannot read config file " ++ path
  | .malformed => "Invalid configuration"
  | .badPort text => "PORT must be a port number, got \x60" ++ text ++ "\x60"

/-- A port number in decimal digits, maybe after a plus sign. -/
def portNumber? (text : List Char) : Option Nat :=
  Text.decimal? UInt16.size ((Text.strip? ['+'] text).getD text)

namespace Settings

def decode (text : String) : Except SettingsError Settings :=
  match ofToml? text with
  | some settings => .ok settings
  | none => .error .malformed

/-- Settings with the port from the environment, if there is one. -/
def overridePort (settings : Settings) : Option String → Except SettingsError Settings
  | none => .ok settings
  | some text =>
    match portNumber? (Text.trim text).toList with
    | some port => .ok { settings with server.port := port }
    | none => .error (.badPort text)

/-- Loads from the file at a path, of which the content is given if it can be read. -/
def load (file : Option (String × Option String)) (port : Option String) :
    Except SettingsError Settings := do
  let settings ← match file with
    | none => .ok {}
    | some (path, none) => .error (.unreadable path)
    | some (_, some content) => decode content
  settings.overridePort port

end Settings

end CodeOutline
