/-!
# Logging

A line is written where it comes up, if the selected level lets it through.
-/
namespace GraphDoc.Command

inductive Level where
  | trace
  | debug
  | info
  | warn
deriving DecidableEq, Repr

namespace Level

def text : Level → String
  | trace => "TRACE"
  | debug => "DEBUG"
  | info => "INFO"
  | warn => "WARN"

def severity : Level → Nat
  | trace => 0
  | debug => 1
  | info => 2
  | warn => 3

end Level

structure LogLine where
  level : Level
  message : String
deriving DecidableEq, Repr

/-- A control character that could steer a terminal is written as an escape. -/
def visibleChar (c : Char) : List Char :=
  if c = '\x1b' then "\\x1b".toList
  else if c = '\x07' then "\\x07".toList
  else if c = '\x08' then "\\x08".toList
  else if c = '\x0c' then "\\x0c".toList
  else if c = '\x7f' then "\\x7f".toList
  else if 0x80 ≤ c.toNat ∧ c.toNat ≤ 0x9f then
    ['\\', 'u', '{'] ++ Nat.toDigits 16 c.toNat ++ ['}']
  else [c]

def LogLine.visible (line : LogLine) : LogLine :=
  { line with message := String.ofList (line.message.toList.flatMap visibleChar) }

/-- What is written of a line when this level is selected. -/
def Level.log (selected level : Level) (message : String) : List LogLine :=
  if selected.severity ≤ level.severity then [LogLine.visible ⟨level, message⟩] else []

/-! ## Selecting the level -/

/-- Blank characters of any script. -/
def isSpace (c : Char) : Bool :=
  let n := c.toNat
  (0x9 ≤ n && n ≤ 0xd) || n == 0x20 || n == 0x85 || n == 0xa0 || n == 0x1680 ||
    (0x2000 ≤ n && n ≤ 0x200a) || n == 0x2028 || n == 0x2029 || n == 0x202f || n == 0x205f ||
    n == 0x3000

def trimmed (text : String) : String :=
  String.ofList ((text.toList.dropWhile isSpace).reverse.dropWhile isSpace).reverse

/-- The levels that a setting can name. -/
def Level.ofName? : String → Option Level
  | "DEBUG" | "debug" | "VERBOSE" | "verbose" => some debug
  | "INFO" | "info" => some info
  | "TRACE" | "trace" => some trace
  | _ => none

/-- The selected level, and the setting where it names none. -/
structure LogSetting where
  level : Level
  invalid : Option String
deriving DecidableEq, Repr

/-- Verbose output overrides the environment. A setting that names no level counts as none. -/
def LogSetting.select (verbose : Bool) (environment : Option String) : LogSetting :=
  if verbose then ⟨.debug, none⟩
  else
    match environment with
    | none => ⟨.info, none⟩
    | some value =>
      match Level.ofName? (trimmed value) with
      | some level => ⟨level, none⟩
      | none => ⟨.info, some (trimmed value)⟩

/-- What is logged about the selection itself. -/
def LogSetting.lines (setting : LogSetting) : List LogLine :=
  setting.level.log .trace ("Initial logging level set to `" ++ setting.level.text ++ "`.") ++
    setting.invalid.toList.flatMap fun value =>
      setting.level.log .warn
        ("Invalid `LOG_LEVEL` environment variable value: `" ++ value ++ "`")

end GraphDoc.Command
