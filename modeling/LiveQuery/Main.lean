import LiveQuery.Command.Run
import Std.Async.DNS
import Std.Async.Signal
import Std.Async.TCP
import Std.Async.Timer

/-!
# The program

The command line at work: it looks at the environment and the files, and if a feed is to be followed
it dials the server, sends the name of the feed and writes a line of results for every event, until
it is interrupted. What it writes and when it ends is decided elsewhere; here are the effects.
-/

namespace LiveQuery.Program

open Std Async
open Command (World Session Finish)

/-- The number of an error of the system, and its name. -/
def systemError? : IO.Error → Option (UInt32 × String)
  | .alreadyExists _ code name | .invalidArgument _ code name | .permissionDenied _ code name
  | .resourceExhausted _ code name | .inappropriateType _ code name | .noSuchThing _ code name
  | .interrupted _ code name | .noFileOrDirectory _ code name
  | .otherError code name | .resourceBusy code name | .resourceVanished code name
  | .unsupportedOperation code name | .hardwareFault code name | .unsatisfiedConstraints code name
  | .illegalOperation code name | .protocolError code name | .timeExpired code name =>
    some (if code < 0x80000000 then code else 0 - code, name.capitalize)
  | .unexpectedEof | .userError _ => none

def causeOf (e : IO.Error) : String :=
  match systemError? e with
  | some (code, name) =>
    let words := match code with
      | 99 => "Cannot assign requested address"
      | 113 => "No route to host"
      | _ => name
    words ++ " (os error " ++ Nat.repr code.toNat ++ ")"
  | none => toString e

/-- Why a host has no place. -/
def lookupCauseOf (e : IO.Error) : String :=
  let reason := match (systemError? e).elim (toString e) (·.2) with
    | "Temporary failure" => "Temporary failure in name resolution"
    | "Unknown node or service" => "Name or service not known"
    | reason => reason
  "failed to lookup address information: " ++ reason

def sourceAt (path : String) : IO Settings.Source := do
  match ← (IO.FS.readBinFile path).toBaseIO with
  | .ok bytes =>
    match String.fromUTF8? bytes with
    | some content => pure (.text content)
    | none => pure (.unreadable "stream did not contain valid UTF-8")
  | .error (.noFileOrDirectory ..) => pure .absent
  | .error e => pure (.unreadable (causeOf e))

/-- As much of the world as a command line sees. -/
def observe (arguments : List String) : IO World := do
  let values ← Settings.variableNames.mapM fun name => do pure (name, ← IO.getEnv name)
  let environment (name : String) : Option String := (values.lookup name).join
  let sources ← (Command.consulted environment arguments).mapM fun path => do
    pure (path, ← sourceAt path)
  pure ⟨environment, fun path => (sources.lookup path).getD .absent⟩

/-- Dials the first of some places that answers. -/
def dialAny (last : IO.Error) : List Net.SocketAddress → Async TCP.Socket.Client
  | [] => throw last
  | place :: rest => do
    let client ← TCP.Socket.Client.mk
    try
      client.connect place
      pure client
    catch e => dialAny e rest

def placeOf (service : UInt16) : Net.IPAddr → Net.SocketAddress
  | .v4 ip => .v4 ⟨ip, service⟩
  | .v6 ip => .v6 ⟨ip, service⟩

/-- The numbers of a host. Only a name has to be looked up. -/
def numbersOf : Feed.Host → Async (List Net.IPAddr)
  | .v4 number =>
    let byte (i : Nat) := (number / Nat.pow 256 i).toUInt8
    pure [.v4 (.ofParts (byte 3) (byte 2) (byte 1) (byte 0))]
  | .v6 number _ =>
    let group (i : Nat) := (number / Nat.pow 65536 i).toUInt16
    pure [.v6 (.ofParts (group 7) (group 6) (group 5) (group 4) (group 3) (group 2) (group 1)
      (group 0))]
  | .name name => do pure (← DNS.getAddrInfo name "").toList

/-- Dials a server and sends the opening line. -/
def openFeed (settings : Feed.FeedSettings) (opening : String) :
    Async (Except Feed.FeedError TCP.Socket.Client) := do
  let failed (cause : String) : Async (Except Feed.FeedError TCP.Socket.Client) :=
    pure (.error (.connect settings.address cause))
  match Feed.Address.parse settings.address with
  | .error fault => failed fault.message
  | .ok address =>
    match ← found (numbersOf address.host) with
    | .error e => failed (lookupCauseOf e)
    | .ok numbers =>
      let places := numbers.map (placeOf address.service)
      match ← found (dialAny (.userError "no place to dial") places) with
      | .error e => failed (causeOf e)
      | .ok client =>
        client.send opening.toUTF8
        pure (.ok client)
where
  found {α : Type} (action : Async α) : Async (Except IO.Error α) := do
    try pure (.ok (← action)) catch e => pure (.error e)

/-- Dials the server of some settings, for no longer than they allow. -/
def dial (settings : Feed.FeedSettings) (opening : String) :
    Async (Except Feed.FeedError TCP.Socket.Client) :=
  Async.raceAll [openFeed settings opening, do
    sleep (.ofNat (settings.connectTimeout / 1000000))
    pure (.error (.connectTimeout settings.address settings.connectTimeout))]

/-- The circumstances of an event that is evaluated now. -/
def momentOf (event : Json) : IO Moment := do
  let draw ← IO.rand 0 (Nat.pow 2 53 - 1)
  pure ⟨event, ← IO.monoNanosNow, draw.toFloat / 9007199254740992.0⟩

def handle (s : Session) (event : Json) : IO Session := do
  let (s, results) := s.step (← momentOf event)
  let time ← Time.Timestamp.now
  let output ← IO.getStdout
  output.putStr (Command.resultLine results time.toNanosecondsSinceUnixEpoch.val.toNat)
  output.flush
  pure s

/-- Goes through what was found in the lines of a feed. -/
def handleAll (s : Session) (readings : List (Feed.Reading Json)) : IO Session :=
  readings.foldlM
    (fun s reading => match reading with
      | .value event => handle s event
      | .undecodable | .tooLong _ _ => pure s) s

def chunkSize : UInt64 := 32768

/-- Follows a feed until the server closes the connection. -/
partial def follow (client : TCP.Socket.Client) (s : Session) (buffer : Feed.LineBuffer) :
    Async Unit := do
  let limit := s.settings.stream.maxLineBytes
  match ← client.recv? chunkSize with
  | none =>
    let last := Feed.readLine Feed.decodeLine limit buffer.length buffer.held.reverse
    let _ ← handleAll s last.toList
  | some chunk =>
    let (buffer, readings) := buffer.feed Feed.decodeLine limit chunk.toList
    follow client (← handleAll s readings) buffer

def conclude (f : Finish) : IO UInt32 := do
  IO.print f.output
  IO.eprint f.report
  pure f.code.toUInt32

/-- Carries a session out. It ends when the program is interrupted, also if there is nothing to
follow any more. -/
def carryOut (s : Session) : Async UInt32 := do
  let f := Feed.create s.settings.feed s.feed
  match ← dial f.settings f.handshake with
  | .error e => conclude (s.unreachable e)
  | .ok client =>
    let interrupted ← (← Signal.Waiter.mk .sigint false).wait
    let untilInterrupted : Async Unit := discard (await interrupted)
    Async.race (do follow client s .empty; untilInterrupted) untilInterrupted
    pure 0

def perform (arguments : List String) : IO UInt32 := do
  match Command.run (← observe arguments) arguments with
  | .finished f => conclude f
  | .misused e => do
    IO.eprint ("error: " ++ e.message ++ "\n\n" ++ Command.usage)
    pure 2
  | .follow s => (carryOut s).block

end LiveQuery.Program

def main (arguments : List String) : IO UInt32 := LiveQuery.Program.perform arguments
