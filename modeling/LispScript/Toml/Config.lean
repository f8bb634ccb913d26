import LispScript.Config
import LispScript.Toml.Parser

/-!
This module contains the decoder of configuration files that the program is run with. A configuration is a TOML
document with the settings in it.
-/

namespace LispScript

namespace Toml

def foldCase (c : Char) : Char :=
  if c = '\u017F' then 's' else if c = '\u212A' then 'k' else c.toLower

def names (key name : String) : Bool :=
  key.toList.map foldCase == name.toList

def stringOf : Node → Option String
  | .string s => some s
  | _ => none

def booleanOf : Node → Option Bool
  | .boolean b => some b
  | _ => none

def stringsOf : Node → Option (List String)
  | .array vs => vs.mapM stringOf
  | _ => none

def ofSessionEntries (c : Config) : Entries → Option (Config × List String)
  | [] => some (c, [])
  | (key, v) :: rest => do
    if names key "prompt" then
      let (c, keys) ← ofSessionEntries { c with prompt := ← stringOf v } rest
      return (c, key :: keys)
    else if names key "disable_history" then
      let (c, keys) ← ofSessionEntries { c with disableHistory := ← booleanOf v } rest
      return (c, key :: keys)
    else ofSessionEntries c rest

/--
The settings in the entries of a document, and the keys that set them. Of several keys for one setting,
each must fit it, and the last one holds.
-/
def ofEntries (d : Document) (c : Config) : Entries → Option (Config × List Key)
  | [] => some (c, [])
  | (key, v) :: rest => do
    if names key "prelude" then
      let (c, keys) ← ofEntries d { c with prelude := ← stringsOf v } rest
      return (c, [key] :: keys)
    else if names key "repl" then
      match v with
      | .table ref =>
        let (c, inner) ← ofSessionEntries c (d.entries ref)
        let (c, keys) ← ofEntries d c rest
        return (c, [key] :: inner.map (fun k => [key, k]) ++ keys)
      | _ => none
    else ofEntries d c rest

def ofDocument (d : Document) : Option (Config × List Key) := do
  let (c, used) ← ofEntries d {} (d.entries Document.root)
  return (c, d.keys.filter (!used.contains ·))

def decodeConfig : Config.Decoder := fun bytes =>
  match parse (Text.ofBytes bytes) >>= ofDocument with
  | some (config, unknown) => .ok (config, unknown.map Key.text)
  | none => .error "toml: invalid configuration"

end Toml

end LispScript
