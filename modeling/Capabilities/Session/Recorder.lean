import Capabilities.Session.Engine

/-!
# A plugin that records

A `Recorder` keeps a list of the hooks it was called with and of what it saw then. It can also be
given rules that make it ask for files at certain hooks, and records whether they were queued.
-/

namespace Capabilities.Session

open Host

inductive Hook where
  | before | after | post
deriving DecidableEq, Repr

def Hook.name : Hook → String
  | .before => "before"
  | .after => "after"
  | .post => "post"

/-- Ask for a file at a hook, perhaps only when it is called for a certain file. -/
structure Rule where
  hook : Hook
  file : Option String
  path : String
  text : Option String
  origin : Option String
deriving DecidableEq, Repr

/-- What a recorder notes: a hook with its file, whether that file is loaded, and all loaded
    files; or a file it asked for and whether it was queued. -/
inductive RecordedEvent where
  | called (hook : Hook) (file : Option String) (known : Option Bool) (files : List String)
  | asked (path : String) (queued : Bool)
deriving DecidableEq, Repr

structure Recorder where
  rules : List Rule
  events : List RecordedEvent
deriving DecidableEq, Repr

namespace Recorder

def applies (hook : Hook) (file : Option String) (rule : Rule) : Bool :=
  rule.hook == hook && (rule.file.isNone || rule.file == file)

def ask : List Rule → List RecordedEvent → Program → List RecordedEvent × Program
  | [], events, program => (events, program)
  | rule :: rest, events, program =>
    let (queued, program) := program.addFile rule.path rule.text rule.origin
    ask rest (events ++ [.asked rule.path queued]) program

/-- Note the call of a hook and follow the rules for it. -/
def note (hook : Hook) (file : Option String) (recorder : Recorder) (program : Program) :
    Recorder × Program :=
  let event := .called hook file (file.map program.isLoaded) program.fileNames
  let (events, program) :=
    ask (recorder.rules.filter (applies hook file)) (recorder.events ++ [event]) program
  ({ recorder with events := events }, program)

end Recorder

/-- A rule puts its file into the queue at most once while files are loaded: afterwards the file
    is loaded, or has failed without a text. -/
instance : Plugin Recorder where
  beforeLoad _ file := Recorder.note .before (some file)
  afterLoad _ file := Recorder.note .after (some file)
  postInfer _ := Recorder.note .post none
  demand recorder := recorder.rules.length

end Capabilities.Session
