import CodeNav.Number.Reading

/-!
The arguments of the command line: options that begin with dashes, in any order, and operands. A
long option may be cut short as long as only one option begins that way, and its value may follow an
equals sign.
-/

namespace CodeNav

inductive CommandOption where
  | verbose
  | config
  | url
  | line
  | column
  | noValidate
  | noFollow
  | host
  | listenPort
  | help
  deriving DecidableEq, Repr

namespace CommandOption

def name : CommandOption → Text
  | verbose => "verbose"
  | config => "config"
  | url => "url"
  | line => "line"
  | column => "column"
  | noValidate => "no-validate"
  | noFollow => "no-follow"
  | host => "host"
  | listenPort => "port"
  | help => "help"

def takesValue : CommandOption → Bool
  | verbose | noValidate | noFollow | help => false
  | _ => true

def general : List CommandOption := [help, verbose]

def ofResolve : List CommandOption :=
  [help, verbose, config, url, line, column, noValidate, noFollow]

def ofServe : List CommandOption := [help, verbose, config, host, listenPort]

/-- The only option of some whose name is, or else begins with, a text. -/
def named? (options : List CommandOption) (t : Text) : Option CommandOption :=
  match options.find? (·.name = t), options.filter fun o => t.isPrefixOf o.name with
  | some o, _ => some o
  | none, [o] => some o
  | none, _ => none

end CommandOption

inductive ArgumentForm where
  | operand
  /-- An option, and the value after an equals sign. -/
  | option (o : CommandOption) (value : Option Text)
  /-- An option that is not known, or more than one. -/
  | refused
  deriving DecidableEq, Repr

namespace ArgumentForm

/-- Whether a text is a negative number: digits, maybe with a point and digits after it. A line feed
may end it. -/
def isNegativeNumber : Text → Bool
  | '-' :: r =>
    let r := if r.getLast? = some '\n' then r.dropLast else r
    let isDigit (c : Char) : Bool := (digitValue? c).isSome
    let whole := r.takeWhile isDigit
    match r.drop whole.length with
    | [] => !whole.isEmpty
    | '.' :: ds => !ds.isEmpty && ds.all isDigit
    | _ => false
  | _ => false

/-- The form of an argument of two dashes and a name: an option where one has that name, else an
operand if it holds a space. -/
def ofLong (options : List CommandOption) (t : Text) : ArgumentForm :=
  let (name, value) :=
    match Text.cut? ['='] t with
    | some (a, b) => (a, some b)
    | none => (t, none)
  match CommandOption.named? options name with
  | some o => option o value
  | none =>
    if t.contains ' ' && !options.any (fun o => name.isPrefixOf o.name) then operand else refused

/-- The form of an argument. A dash alone, a negative number and a text with a space are operands
where no option is meant. -/
def of (options : List CommandOption) : Text → ArgumentForm
  | '-' :: '-' :: t => ofLong options t
  | '-' :: c :: t =>
    if c = 'v' && t.all (· == 'v') then option .verbose none
    else if c = 'h' then option .help none
    else if c = 'v' then refused
    else if isNegativeNumber ('-' :: c :: t) || (c :: t).contains ' ' then operand
    else refused
  | _ => operand

end ArgumentForm

inductive Argument where
  | operand (t : Text)
  | option (o : CommandOption) (value : Text)
  deriving DecidableEq, Repr

namespace Argument

/-- The sign after which everything is an operand. -/
def endOfOptions : Text := "--"

/-- Reads the arguments of a command with at most one operand. The sign that ends the options has to
stand before an operand or right after one. -/
def readAll? (options : List CommandOption) : List Text → Option (List Argument)
  | [] => some []
  | a :: r =>
    if a = endOfOptions then
      match r with
      | [t] => some [operand t]
      | _ => none
    else
      match ArgumentForm.of options a, r with
      | .operand, r =>
        if r = [endOfOptions] then some [operand a] else (readAll? options r).map (operand a :: ·)
      | .option o none, v :: r =>
        if !o.takesValue then (readAll? options (v :: r)).map (option o [] :: ·)
        else if v != endOfOptions && ArgumentForm.of options v = .operand then
          (readAll? options r).map (option o v :: ·)
        else none
      | .option o none, [] => if o.takesValue then none else some [option o []]
      | .option o (some v), r =>
        if o.takesValue then (readAll? options r).map (option o v :: ·) else none
      | .refused, _ => none

def operands (as : List Argument) : List Text :=
  as.filterMap fun a => match a with
    | operand t => some t
    | option .. => none

def values (as : List Argument) (o : CommandOption) : List Text :=
  as.filterMap fun a => match a with
    | option p v => if p = o then some v else none
    | operand _ => none

def has (as : List Argument) (o : CommandOption) : Bool := !(values as o).isEmpty

def value? (as : List Argument) (o : CommandOption) : Option Text := (values as o).getLast?

/-- The number that an option is given last, or a standard one; all its values have to be numbers.
-/
def number? (as : List Argument) (o : CommandOption) (standard : Option Int := none) :
    Option Int := do
  ((← (values as o).mapM Number.readInt?).getLast?).or standard

end Argument

structure ResolveOptions where
  path : Text
  url : Text
  /-- The line of the token, counted from one. -/
  line : Int
  /-- The column of the token, counted from one. -/
  column : Int
  validate : Bool := true
  follow : Bool := true
  deriving DecidableEq, Repr

inductive CommandTask where
  | resolve (o : ResolveOptions)
  | serve (host : Text) (listenPort : Int)
  | help
  deriving DecidableEq, Repr

structure CommandLine where
  task : CommandTask
  verbose : Bool := false
  config : Text := "."
  deriving DecidableEq, Repr

namespace CommandLine

def resolveTask? (as : List Argument) : Option CommandTask := do
  let [path] := Argument.operands as | none
  return .resolve {
    path
    url := ← Argument.value? as .url
    line := ← Argument.number? as .line
    column := ← Argument.number? as .column
    validate := !Argument.has as .noValidate
    follow := !Argument.has as .noFollow }

def serveTask? (as : List Argument) : Option CommandTask := do
  guard (Argument.operands as).isEmpty
  let listenPort ← Argument.number? as .listenPort (some 8000)
  return .serve ((Argument.value? as .host).getD "127.0.0.1") listenPort

def ofCommand? (verbose : Bool) (options : List CommandOption)
    (task? : List Argument → Option CommandTask) (args : List Text) : Option CommandLine := do
  let as ← Argument.readAll? options args
  if Argument.has as .help then return { task := .help }
  return {
    task := ← task? as
    verbose := verbose || Argument.has as .verbose
    config := (Argument.value? as .config).getD "." }

/-- Reads a command line; none when it is refused. -/
def read? (verbose : Bool) : List Text → Option CommandLine
  | [] => none
  | a :: r =>
    if a = Argument.endOfOptions then none
    else
      match ArgumentForm.of CommandOption.general a with
      | .option .verbose none => read? true r
      | .option .help none => some { task := .help }
      | .operand =>
        if a = "resolve".toList then ofCommand? verbose CommandOption.ofResolve resolveTask? r
        else if a = "serve".toList then ofCommand? verbose CommandOption.ofServe serveTask? r
        else none
      | _ => none

end CommandLine

end CodeNav
