import RateX.Factory

/-!
# The configuration

`Load` reads the environment, into which `loadDotEnv` has put the settings of
the file `.env`. The file is the list of its lines, as the scanner returns them
(none, if it cannot be opened). Of the configuration this is the part that the
limiters depend on.
-/

namespace RateX

/-- `os.Getenv`: a variable that is not set reads as empty. -/
abbrev Environ := String → String

/-- `os.Setenv` refuses names and values that the system could not hold. -/
def setenv (env : Environ) (key value : String) : Environ :=
  if key = "" ∨ '=' ∈ key.toList ∨ '\x00' ∈ key.toList ∨ '\x00' ∈ value.toList then env
  else Function.update env key value

/-- One line of `.env`: `key=value`, the value perhaps in quotes. -/
def dotEnvLine (env : Environ) (line : String) : Environ :=
  let line := trimSpace line
  if line = "" ∨ "#".toList <+: line.toList then env
  else if '=' ∉ line.toList then env
  else
    let key := trimSpace (splitFirst '=' line)
    let value := trimSpace (.ofList ((line.toList.dropWhile fun c => c ≠ '=').drop 1))
    let value := .ofList (trimFunc (fun c => c = '"' || c = '\'') value.toList)
    if key ≠ "" then setenv env key value else env

def loadDotEnv (lines : List String) (env : Environ) : Environ := lines.foldl dotEnvLine env

def stringEnv (env : Environ) (key fallback : String) : String :=
  let value := trimSpace (env key)
  if value ≠ "" then value else fallback

/-- `strconv.Atoi`: a sign or none, then decimal digits only, of an `int`. -/
def atoi (text : String) : Option Int :=
  let (negative, digits) := match text.toList with
    | '-' :: rest => (true, rest)
    | '+' :: rest => (false, rest)
    | rest => (false, rest)
  let magnitude : Int := digits.foldl (fun n c => 10 * n + (c.toNat - '0'.toNat : Nat)) 0
  let parsed := if negative then -magnitude else magnitude
  if digits.isEmpty ∨ ¬ digits.all Char.isDigit then none
  else if -2 ^ 63 ≤ parsed ∧ parsed < 2 ^ 63 then some parsed
  else none

def intEnv (env : Environ) (key : String) (fallback : Int) : Int :=
  let value := trimSpace (env key)
  if value = "" then fallback else (atoi value).getD fallback

/-- `RATE_LIMIT_WINDOW_SECONDS`, as `Load` reads it. -/
def windowSeconds (env : Environ) : Int := intEnv env "RATE_LIMIT_WINDOW_SECONDS" 60

def Config.load (lines : List String) (environ : Environ) : Config :=
  let env := loadDotEnv lines environ
  let limit := intEnv env "RATE_LIMIT_DEFAULT_LIMIT" 100
  { defaultAlgorithm := toLower (stringEnv env "RATE_LIMIT_ALGORITHM" "token_bucket")
    defaultLimit := limit
    defaultWindow := .ofSeconds (windowSeconds env)
    defaultBurstCapacity := intEnv env "RATE_LIMIT_BURST_CAPACITY" limit
    rateLimitBackend := toLower (stringEnv env "RATE_LIMIT_BACKEND" "redis")
    rateLimitFailureMode := toLower (stringEnv env "RATE_LIMIT_FAILURE_MODE" "closed") }

end RateX
