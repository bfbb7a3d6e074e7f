import MavPayload.CommandLine.Run

/-!
The command line as a program.
-/

namespace MavPayload.CommandLine

def systemText : IO.Error → String
  | .alreadyExists _ code text | .noFileOrDirectory _ code text | .interrupted _ code text
  | .permissionDenied _ code text | .inappropriateType _ code text | .noSuchThing _ code text
  | .resourceExhausted _ code text | .invalidArgument _ code text | .otherError code text
  | .resourceBusy code text | .resourceVanished code text | .unsupportedOperation code text
  | .hardwareFault code text | .unsatisfiedConstraints code text | .illegalOperation code text
  | .protocolError code text | .timeExpired code text => s!"{text} (os error {code})"
  | .unexpectedEof => "unexpected end of file"
  | .userError text => text

def attempt {α : Type} (action : IO α) : IO (Except String α) := do
  match ← action.toBaseIO with
  | .ok value => return .ok value
  | .error error => return .error (systemText error)

def attemptText (action : IO ByteArray) : IO (Except String String) := do
  match ← attempt action with
  | .error text => return .error text
  | .ok bytes =>
    match String.fromUTF8? bytes with
    | some text => return .ok text
    | none => return .error "stream did not contain valid UTF-8"

def systemHost : Host IO where
  load path := attemptText (do (← IO.FS.Handle.mk path .read).readBinToEnd)
  input := attemptText (do IO.FS.Stream.readBinToEnd (← IO.getStdin))
  save path text := attempt (IO.FS.writeFile path text)

end MavPayload.CommandLine

open MavPayload.CommandLine

def main (arguments : List String) : IO UInt32 := do
  let outcome ← run systemHost arguments
  match outcome with
  | .printed text => IO.print text
  | .failed causes => IO.eprint (report causes)
  | .refused => IO.eprintln "error: the arguments are not understood"
  return outcome.exitCode.toUInt32
