import InternetMail.Notice

/-!
# Loggers

A logger writes the notices that its level lets through, one line each, for programs that have no
logger of their own.
-/

namespace InternetMail

/-- The least important notices that are still let through, or none at all. -/
inductive LogLevel
  | off
  | upTo (level : Level)
  deriving DecidableEq

/-- How much a level lets through, by number. -/
def Level.rank : Level → Nat
  | .error => 1
  | .warn => 2
  | .info => 3
  | .debug => 4
  | .trace => 5

namespace LogLevel

/-- The name of the level. -/
def name : LogLevel → String
  | off => "OFF"
  | upTo level => level.name

/-- The number of the level. -/
def number : LogLevel → Nat
  | off => 0
  | upTo level => level.rank

/-- The level of a number; numbers past the last let everything through. -/
def ofNumber : Nat → LogLevel
  | 0 => off
  | 1 => upTo .error
  | 2 => upTo .warn
  | 3 => upTo .info
  | 4 => upTo .debug
  | _ => upTo .trace

/-- The level where nothing else is said. -/
def default : LogLevel := upTo .warn

/-- Whether notices of a level are let through. -/
def admits (l : LogLevel) (level : Level) : Bool :=
  level.rank ≤ l.number

end LogLevel

/-- A logger that writes lines. -/
structure Logger where
  level : LogLevel
  /-- Whether a line says the level of its notice. -/
  printsLevel : Bool
  /-- Whether a line says where its notice comes from. -/
  printsTarget : Bool
  deriving DecidableEq

namespace Logger

/-- A logger of a level, whose lines say everything. -/
def ofLevel (level : LogLevel) : Logger := ⟨level, true, true⟩

/-- The logger in words. -/
def describe (l : Logger) : String :=
  "StderrLogger \x7b level: " ++ l.level.name ++ ", print_level: " ++ toString l.printsLevel ++
    ", print_module_names: " ++ toString l.printsTarget ++ " \x7d"

/-- The line for a notice at a time, nothing if it is not let through. -/
def line (l : Logger) (time : String) (level : Level) (target message : String) : String :=
  if l.level.admits level then
    time ++ " [" ++ (if l.printsLevel then level.name else "") ++ "]: " ++
      (if l.printsTarget then target ++ ": " else "") ++ message ++ "\n"
  else ""

/-- Makes a logger of a level where another one is in place already. That is reported, if the level
lets it through. -/
def install (level : LogLevel) : Reported Notice Logger := do
  if level.admits Notice.loggerInstalled.level then Reported.report .loggerInstalled
  return ofLevel level

end Logger

end InternetMail
