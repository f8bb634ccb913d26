import LispScript.FileError

/-!
This module contains the configuration of a project. How it is read from the bytes of a file is up to a
decoder, which everything that looks for projects is given.
-/

namespace LispScript

structure Config where
  prelude : List String := []
  /-- The prompt of interactive sessions; the usual one if it is empty. -/
  prompt : String := ""
  disableHistory : Bool := false
  deriving DecidableEq, Repr

/--
A decoder gives the configuration in a file and the keys that mean nothing, or says what is wrong with
the file.
-/
abbrev Config.Decoder := List UInt8 → Except String (Config × List String)

inductive ConfigError where
  | unreadable (e : FileError)
  | invalid (reason : String)
  deriving DecidableEq, Repr

def ConfigError.message : ConfigError → String
  | unreadable e => e.message
  | invalid reason => reason

end LispScript
