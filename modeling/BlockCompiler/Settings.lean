import BlockCompiler.Number.Numeral
import BlockCompiler.Table
import BlockCompiler.Unicode.Upper

/-!
Settings, which come from the environment.
-/

namespace BlockCompiler

/-- The settings of the compiler and its service. -/
structure Settings where
  appName : String := "Prod App"
  apiUrl : String := "//app.production.com/api"
  apiVersion : String := "2.0"
  apiPath : String := "/api"
  outDir : String := "compiled"
  logLevel : String := "INFO"
  host : String := "0.0.0.0"
  port : Int := 3001

/-- The names of log levels and their values. Messages of lower levels than the chosen one are dropped. -/
def logLevels : List (String × Nat) :=
  [("CRITICAL", 50), ("FATAL", 50), ("ERROR", 40), ("WARN", 30), ("WARNING", 30), ("INFO", 20),
    ("DEBUG", 10), ("NOTSET", 0)]

/-- A text without the slashes at its end. -/
def dropSlashesAtEnd (text : String) : String :=
  String.ofList (text.toList.reverse.dropWhile (· = '/')).reverse

namespace Settings

/-- The settings of an environment. What the environment does not say stays at its default, and the
port must be a whole number. -/
def ofEnvironment (environment : Table String) : Except NumeralError Settings := do
  let defaults : Settings := {}
  let get (name default : String) := (environment.get? ("BLOCKCPP_" ++ name)).getD default
  let port ← readWhole (get "PORT" (toString defaults.port))
  return {
    appName := get "APP_NAME" defaults.appName
    apiUrl := dropSlashesAtEnd (get "API_URL" defaults.apiUrl)
    apiVersion := get "API_VERSION" defaults.apiVersion
    apiPath := get "API_PREFIX" defaults.apiPath
    outDir := get "OUT_DIR" defaults.outDir
    logLevel := get "LOG_LEVEL" defaults.logLevel
    host := get "HOST" defaults.host
    port }

/-- The address under which one version of the service is found. -/
def baseUrl (settings : Settings) : String := settings.apiUrl ++ "/" ++ settings.apiVersion

/-- The address of something below the base address. -/
def url (settings : Settings) (path : String) : String := settings.baseUrl ++ path

/-- The value of the log level; an unknown one counts as that of plain information. -/
def logLevelValue (settings : Settings) : Nat := (logLevels.lookup (upper settings.logLevel)).getD 20

end Settings

end BlockCompiler
