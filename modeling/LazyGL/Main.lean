import LazyGL.CommandLine

/-!
The program: the command line with the files, the environment and the error
stream of the system.
-/

namespace LazyGL.Main

def numbered (code : UInt32) (details : String) : FileFault :=
  if code = 2 then .notFound
  else if code = 20 then .notDirectory
  else if code = 21 then .isDirectory
  else if code = 17 then .alreadyExists
  else if code = 36 then .nameTooLong
  else .other (details ++ " (os error " ++ toString code ++ ")")

def faultOf : IO.Error → FileFault
  | .noFileOrDirectory _ code details => numbered code details
  | .inappropriateType _ code details => numbered code details
  | .alreadyExists _ code details => numbered code details
  | .permissionDenied _ code details => numbered code details
  | .invalidArgument _ code details => numbered code details
  | .resourceExhausted _ code details => numbered code details
  | .resourceBusy code details => numbered code details
  | .hardwareFault code details => numbered code details
  | .otherError code details => numbered code details
  | error => .other (toString error)

def attempt {α : Type} (operation : IO α) : IO (Except FileFault α) := do
  match ← operation.toBaseIO with
  | .ok value => return .ok value
  | .error error => return .error (faultOf error)

instance : Files IO where
  load path := do
    match ← attempt (IO.FS.Handle.mk path.text .read) with
    | .error fault => return .error (.unopened fault)
    | .ok handle => return (← attempt handle.readBinToEnd).mapError .unreadable
  makeDirectories path := attempt (IO.FS.createDirAll path.text)
  create path := attempt (discard (IO.FS.Handle.mk path.text .write))
  append path bytes := attempt do
    let handle ← IO.FS.Handle.mk path.text .append
    handle.write bytes
    handle.flush

instance : Console IO where
  complain line := IO.eprintln line

end LazyGL.Main

def main (arguments : List String) : IO UInt32 := do
  let program ← IO.appPath
  let setting ← IO.getEnv LazyGL.CommandLine.logVariable
  LazyGL.CommandLine.run ((program.toString :: arguments).map LazyGL.Utf8.ofString)
    (setting.map LazyGL.Utf8.ofString)
