import BuildServer.Settings.Basic
import BuildServer.Text.Alphanumeric

/-!
# Telemetry

Log events are filtered by directives and rendered in one format for the whole process. A filter is
a list of directives between commas: a level, a target, or a target with a level. The first
configuration that takes effect is final; later ones are told its format, and are not looked at. A
process whose host has installed a subscriber of its own accepts none.
-/

namespace BuildServer

/-- Why a filter is refused. -/
inductive FilterFault
  | directive
  | level
  deriving DecidableEq

/-- The wording of a refusal. -/
def FilterFault.message : FilterFault → String
  | .directive => "invalid filter directive"
  | .level => "error parsing level filter: expected one of \"off\", \"error\", \"warn\", " ++
    "\"info\", \"debug\", \"trace\", or a number 0-5"

namespace LogFilter

/-- The names of the levels. -/
def levels : List String := ["off", "error", "warn", "info", "debug", "trace"]

/-- Whether a text is a level, by its name in any case or by its number. -/
def isLevel (cs : List Char) : Bool :=
  levels.any (Text.sameAscii (String.ofList cs)) ||
    (match Text.word? cs with
      | some n => decide (n ≤ 5)
      | none => false)

/-- Whether a directive may start with a character. -/
def startsDirective (c : Char) : Bool :=
  c == '-' || c == ':' || c == '_' || Text.isAlphanumeric c

/-- Checks one directive. It starts at its first character that is not blank, and the place of the
equals sign is counted from there; the level is what follows as many characters of the whole
directive, so blanks at either end leave no level that is understood. -/
def checkDirective (cs : List Char) : Except FilterFault Unit :=
  let trimmed := Text.trim cs
  if !(trimmed.head?.map startsDirective).getD false then .error .directive
  else match Text.splitAtFirst? '=' trimmed with
    | none => .ok ()
    | some (target, _) =>
      let level := cs.drop (target.length + 1)
      if level.isEmpty || isLevel level then .ok () else .error .level

/-- Checks a filter; empty directives are skipped. -/
def check (s : String) : Except FilterFault Unit :=
  ((s.toList.splitOn ',').filter fun part => !part.isEmpty).forM checkDirective

end LogFilter

/-- Why telemetry did not take effect. -/
inductive TelemetryError
  | filter (expression : String) (fault : FilterFault)
  | foreignSubscriber
  deriving DecidableEq

/-- The wording of a failure. -/
def TelemetryError.message : TelemetryError → String
  | .filter expression fault =>
    "invalid log filter `" ++ expression ++ "`: " ++ fault.message
  | .foreignSubscriber => "a global tracing subscriber is already installed"

/-- The state of the process: the format in effect, and whether its host came first. -/
structure Telemetry where
  installed : Option LogFormat := none
  foreign : Bool := false

namespace Telemetry

/-- Puts settings into effect, unless others already are; returns the format in effect. -/
def initialise (t : Telemetry) (s : Settings) : Except TelemetryError LogFormat × Telemetry :=
  match t.installed with
  | some format => (.ok format, t)
  | none =>
    match LogFilter.check s.logFilter with
    | .error fault => (.error (.filter s.logFilter fault), t)
    | .ok () =>
      if t.foreign then (.error .foreignSubscriber, t)
      else (.ok s.logFormat, { t with installed := some s.logFormat })

end Telemetry

end BuildServer
