import SiteServer.App
import SiteServer.CommandLine
import SiteServer.Message.Wire
import SiteServer.Text.Uuid
import Std.Async.TCP

/-! # The command: serves files as a site until it is stopped. -/

namespace SiteServer.Command

open Std.Async
open Message (Request)

def writeLog (line : CommandLine) (record : LogRecord) : IO Unit := do
  if record.isWritten then IO.eprintln (record.line line.jsonLogs)

/-- Reads a file of the machine into the tree, under the name that it has on the command line. -/
def load (files : FileTree) (name : String) : IO FileTree := do
  let content ← IO.FS.readBinFile name
  let path : Path := ⟨name⟩
  let files := match path.parent? with
    | some parent => (files.makeDirectories parent).2
    | none => files
  match files.write path content.toList with
  | .ok files => return files
  | .error fault => throw (IO.userError s!"{name}: {fault.message}")

def freshId : IO String := do
  let bytes ← IO.getRandomBytes 16
  return Text.Uuid.ofNat (bytes.toList.foldl (fun n b => n * 256 + b.toNat) 0)

/-- Receives a request from a connection, or what there is of one when it ends. -/
partial def receive (client : TCP.Socket.Client) (received : Bytes) : Async Message.Wire.Arrival := do
  match Message.Wire.arrival received with
  | .incomplete =>
    match ← client.recv? 65536 with
    | some bytes => receive client (received ++ bytes.toList)
    | none => return .malformed
  | arrival => return arrival

/-- Answers the requests of one connection after the other. -/
partial def serve (line : CommandLine) (server : TCP.Socket.Server) (app : App World) (world : World) :
    Async Unit := do
  let client ← server.accept
  let (answer, world) ← match ← receive client [] with
    | .complete head body =>
      let request := Request.arriving (← freshId) head.method head.uri head.headers body
      match app.serve? world request with
      | some served =>
        served.log.forM fun record => writeLog line record
        pure (Message.Wire.ofResponse served.response, served.shared)
      | none => pure (Message.Wire.badRequest, world)
    | _ => pure (Message.Wire.badRequest, world)
  try
    client.send ⟨answer.toArray⟩
    client.shutdown
  catch _ => pure ()
  serve line server app world

/-- Binds a server to an address of this machine. -/
def bind (address : SocketAddress) : IO TCP.Socket.Server := do
  let some ip := Std.Net.IPv4Addr.ofString address.ip
    | throw (IO.userError s!"not an address: {address.ip}")
  let server ← TCP.Socket.Server.mk
  server.bind (.v4 ⟨ip, address.port⟩)
  server.listen 128
  return server

/-- Serves a site until the process is stopped. -/
def run (line : CommandLine) : IO UInt32 := do
  let document ← line.config.mapM fun name => IO.FS.readFile name
  let some config := line.configure? document
    | throw (IO.userError "the configuration file is malformed")
  let files ← line.files.foldlM load .empty
  match Site.ofOptions config.router config.parser with
  | .error failure => throw (IO.userError s!"building app: {failure.message}")
  | .ok site =>
    let app := App.ofSite site config.listen config.parser.maxBody
    match app.start SocketAddress.ofOptions with
    | (.error failure, _) => throw (IO.userError s!"starting listener: {failure.message}")
    | (.ok address, app) =>
      let server ← bind address
      writeLog line (.plain .info s!"listening on {address.text}")
      (serve line server app ⟨files, .opening .empty⟩).block
      return 0

end SiteServer.Command

def main (arguments : List String) : IO UInt32 := do
  match SiteServer.CommandLine.ofArguments? arguments with
  | none =>
    IO.eprintln SiteServer.CommandLine.usage
    return 2
  | some line =>
    try SiteServer.Command.run line
    catch e =>
      IO.eprintln s!"Error: {e}"
      return 1
