import Annodoc.FileSystem
import Annodoc.Glob.Pattern

/-!
# Failures of a run

Why a run fails.
-/

namespace Annodoc

inductive RunFailure where
  | unknownFormat (name : String)
  | invalidExclude (pattern : String) (e : Glob.PatternError)
  | invalidGlob (pattern : String) (e : Glob.PatternError)
  | unreadable (path : String) (e : SystemError)
  | unreadableInput
  | unwritable (path : String) (e : SystemError)
  | failedBlocks (count : Nat)
  deriving DecidableEq, Repr

namespace RunFailure

def message : RunFailure → String
  | .unknownFormat name => "unknown format: " ++ name ++ ". Use report or json"
  | .invalidExclude pattern _ => "invalid exclude pattern: " ++ pattern
  | .invalidGlob pattern _ => "invalid glob pattern: " ++ pattern
  | .unreadable path _ => "failed to read " ++ path
  | .unreadableInput => "failed to read stdin"
  | .unwritable path _ => "failed to write " ++ path
  | .failedBlocks count => toString count ++ " annotation block(s) failed to parse"

/-- What lies behind a failure, where something does. -/
def cause? : RunFailure → Option String
  | .invalidExclude _ e | .invalidGlob _ e => some e.message
  | .unreadable _ e | .unwritable _ e => some e.message
  | .unreadableInput => some "stream did not contain valid UTF-8"
  | .unknownFormat _ | .failedBlocks _ => none

/-- The failure and its cause, as they are shown to the user. -/
def report (f : RunFailure) : String :=
  "Error: " ++ f.message ++ "\n" ++
    f.cause?.elim "" fun cause => "\nCaused by:\n    " ++ cause ++ "\n"

end RunFailure
end Annodoc
