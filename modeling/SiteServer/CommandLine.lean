import SiteServer.Config.Coding
import SiteServer.Json.Printer
import SiteServer.Pipeline.Event
import SiteServer.Toml.Reader

/-! # Options on the command line, which go over those of a configuration file. -/

namespace SiteServer

/-- What a command line says: a configuration file, options over it, and the files to serve. -/
structure CommandLine where
  config : Option String := none
  basePath : Option Path := none
  host : Option String := none
  port : Option UInt16 := none
  jsonLogs : Bool := false
  files : List String := []
  deriving Repr

namespace CommandLine

def usage : String :=
  "usage: site-server [--config FILE] [--base-path DIR] [--host HOST] [--port PORT] [--json-logs] FILE..."

def port? (text : String) : Option UInt16 :=
  if text.toList.all Char.isDigit then
    text.toNat?.bind fun n => if n < UInt16.size then some (.ofNat n) else none
  else none

/-- Takes in an option with its value. -/
def withOption? (line : CommandLine) (name value : String) : Option CommandLine :=
  match name with
  | "--config" => some { line with config := some value }
  | "-c" => some { line with config := some value }
  | "--base-path" => some { line with basePath := some ⟨value⟩ }
  | "-b" => some { line with basePath := some ⟨value⟩ }
  | "--host" => some { line with host := some value }
  | "--port" => (port? value).map fun port => { line with port := some port }
  | "-p" => (port? value).map fun port => { line with port := some port }
  | _ => none

/-- Takes in all arguments, in order; a later one goes over an earlier one. -/
def addAll? (line : CommandLine) : List String → Option CommandLine
  | [] => some line
  | "--json-logs" :: rest => addAll? { line with jsonLogs := true } rest
  | [argument] => if argument.startsWith "-" then none
    else some { line with files := line.files ++ [argument] }
  | argument :: value :: rest =>
    if argument.startsWith "-" then (line.withOption? argument value).bind (addAll? · rest)
    else addAll? { line with files := line.files ++ [argument] } (value :: rest)

/-- The meaning of a command line, if it is well-formed. -/
def ofArguments? (arguments : List String) : Option CommandLine :=
  addAll? {} arguments

/-- The configuration with the options of the command line over it. -/
def overlay (line : CommandLine) (config : SiteConfig) : SiteConfig :=
  { config with
    router := { config.router with basePath := line.basePath.getD config.router.basePath }
    listen :=
      { config.listen with
        host := line.host.getD config.listen.host
        port := line.port.getD config.listen.port } }

/-- The configuration of a TOML document with the options of the command line over it. -/
def configure? (line : CommandLine) (document : Option String) : Option SiteConfig :=
  match document with
  | none => some (line.overlay {})
  | some text => ((Toml.read? text).bind (SiteConfig.ofJson? .toml)).map line.overlay

end CommandLine

/-! ## Log lines -/

/-- Records below the level INFO are not written. -/
def LogRecord.isWritten (record : LogRecord) : Bool :=
  record.level ≠ .debug && record.level ≠ .trace

def LogRecord.line (record : LogRecord) (asJson : Bool) : String :=
  if asJson then
    (Json.object [("level", .string record.level.name), ("message", .string record.message),
      ("fields", .object (record.fields.map fun (key, text) => (key, .string text)))]).text
  else
    let fields := String.join (record.fields.map fun (key, text) => s!" {key}={text}")
    s!"{record.level.name} {record.message}{fields}"

end SiteServer
