import Caf.Error.Basic

/-!
# The command line

The arguments of the tool name a command, its file and its options. An option has a long name, and
maybe a letter; its value is the next argument or is attached to it. `--` ends the options. No
option is given twice and no name is abbreviated. Arguments are read from the first to the last, so
a request for the version counts when nothing in front of it was wrong. That a file is missing shows
only at the end, but a file too many is wrong where it stands.
-/

namespace Caf.Tool

/-- What a new file is to hold. -/
structure NewFile where
  /-- Path of the file. -/
  path : String
  /-- Name of the encoding. -/
  encoding : String := "pcm16"
  /-- Number of channels. -/
  channels : UInt32 := 2
  /-- Sample frames per second. -/
  sampleRate : UInt32 := 44100
  /-- Number of silent frames. -/
  frames : Nat := 0
  /-- Name of the byte order. -/
  order : String := "file"
  deriving DecidableEq, Repr

/-- What the tool is asked to do. -/
inductive Command where
  /-- Print the summary of a stream, as a JSON document, with a digest of its samples. -/
  | info (path : String) (json hash : Bool)
  /-- List the chunks. -/
  | chunks (path : String) (json : Bool)
  /-- Print the journal of reading the header. -/
  | log (path : String)
  /-- Create a file of silent frames. -/
  | create (options : NewFile)
  /-- List the encodings. -/
  | formats
  deriving DecidableEq, Repr

/-- What the arguments amount to. -/
inductive Request where
  /-- A command to run. -/
  | run (command : Command)
  /-- The version of the tool, or of the named command. -/
  | version (command : Option String)
  /-- An explanation of the arguments. -/
  | help
  /-- Arguments that mean nothing. -/
  | misuse
  deriving DecidableEq, Repr

/-! ## Numbers -/

/-- The number that `digits` spell, if there are only decimal digits and at least one. -/
def decimal? (digits : List Char) : Option Nat :=
  if digits.isEmpty || digits.any (fun c => !c.isDigit) then none
  else some (digits.foldl (fun n c => 10 * n + (c.toNat - 48)) 0)

/-- A count: decimal digits, maybe behind a plus sign, that fit sixty-four bits. -/
def count? (text : String) : Option Nat :=
  let digits :=
    match text.toList with
    | '+' :: digits => digits
    | digits => digits
  (decimal? digits).filter (· < 2 ^ 64)

/-- A signed number that lies within thirty-two bits without a sign. A minus sign is in order in
front of zero. -/
def word? (text : String) : Option UInt32 :=
  let (bound, digits) :=
    match text.toList with
    | '+' :: digits => (2 ^ 32, digits)
    | '-' :: digits => (1, digits)
    | digits => (2 ^ 32, digits)
  ((decimal? digits).filter (· < bound)).map UInt32.ofNat

/-! ## Options -/

/-- What an option is about. -/
inductive Topic where
  /-- Say more on the way. -/
  | verbose
  /-- Explain the arguments. -/
  | help
  /-- Tell the version. -/
  | version
  /-- Write a JSON document. -/
  | json
  /-- Digest the samples. -/
  | hash
  /-- Encoding of a new file. -/
  | encoding
  /-- Channels of a new file. -/
  | channels
  /-- Rate of a new file. -/
  | rate
  /-- Length of a new file. -/
  | frames
  /-- Byte order of a new file. -/
  | order
  deriving DecidableEq, Repr

namespace Topic

/-- The name behind two dashes. -/
def long : Topic → String
  | verbose => "verbose"
  | help => "help"
  | version => "version"
  | json => "json"
  | hash => "hash"
  | encoding => "format"
  | channels => "channels"
  | rate => "rate"
  | frames => "frames"
  | order => "endian"

/-- The letter behind one dash. -/
def short : Topic → Option Char
  | verbose => some 'v'
  | help => some 'h'
  | version => some 'V'
  | json => none
  | hash => none
  | encoding => some 'f'
  | channels => some 'c'
  | rate => some 'r'
  | frames => some 'n'
  | order => none

/-- A value belongs to the option. -/
def takesValue : Topic → Bool
  | encoding => true
  | channels => true
  | rate => true
  | frames => true
  | order => true
  | _ => false

/-- A value that an option on the topic can have. -/
def accepts : Topic → String → Bool
  | channels, value => (word? value).isSome
  | rate, value => (word? value).isSome
  | frames, value => (count? value).isSome
  | _, _ => true

/-- The options that every command has. -/
def shared : List Topic := [verbose, help, version]

end Topic

/-! ## Reading arguments -/

/-- What ends the reading of arguments early. -/
inductive Stop where
  /-- An argument that means nothing. -/
  | misuse
  /-- A request for the version. -/
  | version
  /-- A request for an explanation. -/
  | help
  deriving DecidableEq, Repr

/-- The arguments that are in order at some place of the command line. -/
structure Form where
  /-- The options. -/
  topics : List Topic
  /-- A file is named. -/
  hasFile : Bool
  deriving DecidableEq, Repr

namespace Form

/-- What is in order in front of the command, and behind one that works on no file. -/
def general : Form :=
  { topics := Topic.shared, hasFile := false }

/-- What is in order behind a command that works on a file and has `topics` of its own. -/
def onFile (topics : List Topic) : Form :=
  { topics := topics ++ Topic.shared, hasFile := true }

end Form

/-- The arguments that have been read. -/
structure Given where
  /-- The options with their values. -/
  options : List (Topic × String) := []
  /-- The file. -/
  file : Option String := none
  deriving DecidableEq, Repr

namespace Given

/-- The value of the option on `topic`. -/
def value? (given : Given) (topic : Topic) : Option String :=
  (given.options.find? (·.1 == topic)).map (·.2)

/-- The option on `topic` is there. -/
def has (given : Given) (topic : Topic) : Bool :=
  (given.value? topic).isSome

/-- Takes the option on `topic` with its `value`. It can be given only once. -/
def set (given : Given) (topic : Topic) (value : String) : Except Stop Given :=
  if given.has topic || !topic.accepts value then .error .misuse
  else .ok { given with options := (topic, value) :: given.options }

/-- Takes an option without a value. -/
def turnOn (given : Given) : Topic → Except Stop Given
  | .version => .error .version
  | .help => .error .help
  | topic => given.set topic ""

/-- Takes `file`, of which there is at most one. -/
def setFile (given : Given) (form : Form) (file : String) : Except Stop Given :=
  if form.hasFile && given.file.isNone then .ok { given with file := some file }
  else .error .misuse

/-- Takes an option by its long name, with the value behind an equals sign if there is one. What is
given back with the arguments is an option whose value is still to come. -/
def long (given : Given) (form : Form) (text : List Char) :
    Except Stop (Given × Option Topic) :=
  let name := String.ofList (text.takeWhile (· ≠ '='))
  match form.topics.find? (·.long == name), text.dropWhile (· ≠ '=') with
  | none, _ => .error .misuse
  | some topic, [] =>
    if topic.takesValue then .ok (given, some topic)
    else (given.turnOn topic).map (·, none)
  | some topic, _ :: value =>
    if topic.takesValue then (given.set topic (String.ofList value)).map (·, none)
    else .error .misuse

/-- Takes options by their letters. The rest of the argument is the value of the first option that
has one; an equals sign in front of it does not count. -/
def short (form : Form) : List Char → Given → Except Stop (Given × Option Topic)
  | [], given => .ok (given, none)
  | letter :: rest, given =>
    match form.topics.find? (·.short == some letter) with
    | none => .error .misuse
    | some topic =>
      if topic.takesValue then
        match rest with
        | [] => .ok (given, some topic)
        | '=' :: value => (given.set topic (String.ofList value)).map (·, none)
        | value => (given.set topic (String.ofList value)).map (·, none)
      else
        match given.turnOn topic with
        | .ok given => short form rest given
        | .error stop => .error stop

/-- An argument that names options and is no value. A single dash is a value. -/
def isOption (arg : String) : Bool :=
  match arg.toList with
  | '-' :: _ :: _ => true
  | _ => false

/-- Takes one argument `arg` in front of which no option waits for its value. -/
def one (given : Given) (form : Form) (arg : String) : Except Stop (Given × Option Topic) :=
  match arg.toList with
  | '-' :: '-' :: text => given.long form text
  | '-' :: letter :: rest => short form (letter :: rest) given
  | _ => (given.setFile form arg).map (·, none)

/-- Takes arguments that are no options, whatever they look like. -/
def files (form : Form) : List String → Given → Except Stop Given
  | [], given => .ok given
  | arg :: args, given =>
    match given.setFile form arg with
    | .ok given => files form args given
    | .error stop => .error stop

/-- Takes all arguments of a command; `waiting` is an option whose value has to come next. -/
def all (form : Form) : List String → Given → (waiting : Option Topic) → Except Stop Given
  | [], given, none => .ok given
  | [], _, some _ => .error .misuse
  | arg :: args, given, some topic =>
    -- A value that looks like an option has to be attached.
    if isOption arg then .error .misuse
    else
      match given.set topic arg with
      | .ok given => all form args given none
      | .error stop => .error stop
  | arg :: args, given, none =>
    if arg = "--" then files form args given
    else
      match given.one form arg with
      | .ok (given, waiting) => all form args given waiting
      | .error stop => .error stop

end Given

/-! ## Commands -/

namespace Request

/-- The request for `command` with its options, if its file is given. -/
def withFile (given : Given) (command : String → Command) : Request :=
  match given.file with
  | some file => .run (command file)
  | none => .misuse

/-- What a new file at `path` is to hold; options that are not given have their usual values. -/
def newFile (given : Given) (path : String) : NewFile :=
  let usual : NewFile := { path }
  { path
    encoding := (given.value? .encoding).getD usual.encoding
    channels := ((given.value? .channels).bind word?).getD usual.channels
    sampleRate := ((given.value? .rate).bind word?).getD usual.sampleRate
    frames := ((given.value? .frames).bind count?).getD usual.frames
    order := (given.value? .order).getD usual.order }

/-- The commands by name: what is in order behind each, and what it asks for. -/
def commands : List (String × Form × (Given → Request)) :=
  [("info", .onFile [.json, .hash], fun given =>
      withFile given fun file => .info file (given.has .json) (given.has .hash)),
   ("chunks", .onFile [.json], fun given =>
      withFile given fun file => .chunks file (given.has .json)),
   ("log", .onFile [], fun given => withFile given .log),
   ("create", .onFile [.encoding, .channels, .rate, .frames, .order], fun given =>
      withFile given fun file => .create (newFile given file)),
   ("formats", .general, fun _ => .run .formats)]

/-- The command that explains the arguments. -/
def helpCommand : String := "help"

/-- The request for an explanation, of everything or of one command. -/
def ofTopic : List String → Request
  | [] => .help
  | [name] =>
    if name = helpCommand ∨ commands.any (·.1 == name) then .help else .misuse
  | _ => .misuse

/-- The request for the command called `name` with `args`. -/
def ofCommand (name : String) (args : List String) : Request :=
  match commands.find? (·.1 == name) with
  | none => if name = helpCommand then ofTopic args else .misuse
  | some (_, form, request) =>
    match Given.all form args {} none with
    | .ok given => request given
    | .error .misuse => .misuse
    | .error .version => .version (some name)
    | .error .help => .help

/-- Reads the arguments in front of the command, and then the command. -/
def read : (args : List String) → Given → Request
  | [], _ => .misuse
  | arg :: args, given =>
    if Given.isOption arg then
      match given.one .general arg with
      | .ok (given, _) => read args given
      | .error .misuse => .misuse
      | .error .version => .version none
      | .error .help => .help
    else ofCommand arg args

/-- The request that `args` make. -/
def ofArguments (args : List String) : Request :=
  read args {}

end Request

end Caf.Tool
