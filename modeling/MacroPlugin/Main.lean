import MacroPlugin.CommandLine.Task

/-!
The program. It looks up the environment and the files, and leaves everything else to
`CommandLine`. Serving is done request by request, because a host waits for each reply before it
goes on.
-/

namespace MacroPlugin.CommandLine

/-- The number of an error of the system, which may come negated. -/
def errorNumber (code : UInt32) : UInt32 :=
  if code < 2147483648 then code else 0 - code

/-- What an error in reading a file says about its path. -/
def Entry.ofError : IO.Error → Entry
  | .noFileOrDirectory _ _ _ => .missing
  | .inappropriateType _ code details =>
    match errorNumber code with
    | 20 => .notDirectory
    | 21 => .directory
    | number => unread details number
  | .invalidArgument _ code details =>
    match errorNumber code with
    | 36 => .nameTooLong
    | number => unread details number
  | .permissionDenied _ code details => unread details (errorNumber code)
  | e => .unreadable (toString e)
where
  unread (details : String) (number : UInt32) : Entry :=
    .unreadable (details.capitalize ++ " (os error " ++ toString number ++ ")")

/-- What the file system has at a path. -/
def look (path : String) : IO Entry := do
  try
    return .file (← IO.FS.readBinFile path).toList
  catch e => return .ofError e

def lookUpEnvironment : IO Environment := do
  return {
    config := ← IO.getEnv "COMPILER_PLUGIN_CONFIG"
    configHome := ← IO.getEnv "XDG_CONFIG_HOME"
    home := ← IO.getEnv "HOME" }

/-- The surroundings as far as an invocation looks at them. -/
def lookAround (environment : Environment) (i : Invocation) : IO Surroundings := do
  let entries ← (i.paths environment).mapM fun path => return (path, ← look path)
  return ⟨environment, fun path => (entries.lookup path).getD .missing⟩

/-- Reads up to the end of a line, or up to a limit. -/
partial def readLine (input : IO.FS.Stream) (limit : Nat) (line : ByteArray) : IO ByteArray := do
  let piece ← input.read 1
  let line := line ++ piece
  if piece.isEmpty || piece.get! 0 = Ascii.newline || limit ≤ line.size then return line
  else readLine input limit line

/-- Reads as much as the frame that begins with `unread` needs at least, which is nothing only at
the end of the input. A host may send no more than that before it gets a reply. -/
def readMore (input : IO.FS.Stream) (framing : Framing) (limit : Nat) (unread : Octets) :
    IO Octets := do
  let piece ← match framing with
    | .jsonLines => readLine input (min 65536 (limit + 1)) .empty
    | .lengthPrefixed =>
      let header := unread.take Stream.headerSize
      if header.length < Stream.headerSize then
        input.read (Stream.headerSize - header.length).toUSize
      else input.read (min 65536 (Stream.headerSize + Octets.toNat header - unread.length)).toUSize
  return piece.toList

/-- Takes the next request off what is unread, and waits for more of the input until there is
one. -/
partial def receive (input : IO.FS.Stream) (framing : Framing) (limit : Nat) (unread : Octets) :
    IO (Except TransportError (Option Request) × Octets) := do
  match Stream.receive Request framing limit [.data unread, .failed ""] with
  | (.error (.io _), _) =>
    let more ← readMore input framing limit unread
    if more.isEmpty then
      let (result, rest) := Stream.receive Request framing limit [.data unread]
      return (result, (rest.map Delivery.octets).flatten)
    else receive input framing limit (unread ++ more)
  | (result, rest) => return (result, (rest.map Delivery.octets).flatten)

def write (output : IO.FS.Stream) (octets : Octets) : IO Unit := do
  output.write ⟨octets.toArray⟩
  output.flush

/-- Writes a line about what happens, if such lines are wanted. -/
def log (wanted level : LogLevel) (text : String) : IO Unit := do
  if wanted.admits level then IO.eprintln (level.name ++ ": " ++ text)

/-- Answers requests until the input ends. -/
partial def answerAll (input output : IO.FS.Stream) (framing : Framing) (limit : Nat)
    (level : LogLevel) (dispatcher : Dispatcher) (unread : Octets) :
    IO (Except TransportError Unit) := do
  match ← receive input framing limit unread with
  | (.error e, _) => return .error e
  | (.ok none, _) => return .ok ()
  | (.ok (some request), rest) =>
    let (reply, dispatcher) := dispatcher.answer request
    log level .debug ("answering " ++ request.kind ++ " with " ++ reply.kind)
    write output (framing.frame (.ofText (Wire.encode reply)))
    answerAll input output framing limit level dispatcher rest

/-- Writes what a run that has ended leaves to be written, and returns its exit status. -/
def Completion.finish (c : Completion) : IO UInt32 := do
  write (← IO.getStdout) c.output
  unless c.report.isEmpty do IO.eprintln c.report
  return c.status

/-- Performs a task on the standard streams. -/
def Task.perform : Task → IO UInt32
  | .serve framing limit level dispatcher => do
    let input ← IO.getStdin
    let output ← IO.getStdout
    log level .info "serving plugin protocol"
    let served : Except TransportError Unit ←
      try answerAll input output framing limit level dispatcher []
      catch e => pure (.error (.io (toString e)))
    match served with
    | .ok () =>
      log level .info "host closed the connection"
      return 0
    | .error e => (Completion.ofSession [] e).finish
  | task => (task.run []).finish

end MacroPlugin.CommandLine

open MacroPlugin.CommandLine

/-- Runs the program and returns its exit status. -/
def main (arguments : List String) : IO UInt32 := do
  let environment ← lookUpEnvironment
  match Invocation.read environment.config arguments with
  | .error stop => stop.completion.finish
  | .ok invocation =>
    match invocation.task (← lookAround environment invocation) with
    | .error problem => (problem.completion []).finish
    | .ok task => task.perform
