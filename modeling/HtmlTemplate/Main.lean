import HtmlTemplate.Demo.Site
import HtmlTemplate.Notice
import HtmlTemplate.Pool.Basic

/-!
# Serving the demo site

The command answers HTTP requests from standard input on standard output, one
after the other, so it can be run by a program that listens on a socket. Options:

* `--pool-size N` sets the number of items kept per pool,
* `--trace` prints a line for each request,
* `--quiet` prints no warnings.
-/

namespace HtmlTemplate.Main

/-- What is given on the command line. -/
structure Options where
  poolSize : Option String := none
  trace : Bool := false
  quiet : Bool := false

/-- Reads the command line. -/
def Options.ofArgs (o : Options) : List String → Except String Options
  | [] => .ok o
  | "--trace" :: rest => Options.ofArgs { o with trace := true } rest
  | "--quiet" :: rest => Options.ofArgs { o with quiet := true } rest
  | "--pool-size" :: size :: rest => Options.ofArgs { o with poolSize := some size } rest
  | arg :: _ => .error ("unexpected argument " ++ Text.quoted arg)

/-- Looks a variable of the environment up. The command line goes first. -/
def lookup (o : Options) (name : String) : IO (Except SettingsError (Option String)) := do
  if name = PoolVariable.poolSize.name ∧ o.poolSize.isSome then return .ok o.poolSize
  return .ok (← IO.getEnv name)

/-- The method and the address in a request line. -/
def requestLine? (line : String) : Option (String × String) :=
  match (line.trimAscii.toString.splitOn " ").filter fun word => !word.isEmpty with
  | method :: address :: _ => some (method, address)
  | _ => none

/-- Reads the headers of a request, up to the empty line. -/
partial def skipHeaders (input : IO.FS.Stream) : IO Unit := do
  let line ← input.getLine
  unless line.trimAscii.isEmpty do skipHeaders input

/-- What is kept from one request to the next. -/
structure Server where
  site : Demo.Site
  switches : NoticeSwitches
  pools : Pools Demo.Counters
  counters : Demo.Counters := {}

/-- Answers a request with a response from the pool, which gets it back. -/
def Server.answer (s : Server) (method address : String) : Reply × Server :=
  let (response, pools) := s.pools.acquireResponse
  match s.site.handle { response := response, world := s.counters } method address with
  | .error _ => (Reply.errorPage 500, { s with pools := pools })
  | .ok (reply, session) =>
    let pools := { pools with responses := pools.responses.put session.response }
    (reply, { s with pools := pools, counters := session.world })

/-- Answers requests until the input ends. -/
partial def serve (s : Server) : IO Unit := do
  let input ← IO.getStdin
  let output ← IO.getStdout
  let thread : ThreadId := ⟨1⟩
  let line ← input.getLine
  match requestLine? line with
  | none => unless line.isEmpty do serve s
  | some (method, address) =>
    skipHeaders input
    if s.switches.traces then
      IO.eprint ((Notice.trace thread (method ++ " " ++ address)).line "Main" 1)
    let started ← IO.monoMsNow
    let (reply, s) := s.answer method address
    output.write reply.wire
    output.flush
    if s.switches.timings then
      let elapsed := toString ((← IO.monoMsNow) - started) ++ "ms"
      IO.eprint ((Notice.timing thread "render_page" elapsed).line "Main" 1)
    serve s

/-- Serves the site with the given options. -/
def run (o : Options) : IO UInt32 := do
  match ← PoolSettings.read (lookup o) with
  | .error e =>
    IO.eprintln ("Error: " ++ e.message)
    return 1
  | .ok settings =>
    match Demo.Site.build with
    | .error e =>
      IO.eprintln ("Error: " ++ e.message)
      return 1
    | .ok site =>
      let timings := NoticeSwitches.timingsFrom (← IO.getEnv "TIME_GUARD")
      let switches : NoticeSwitches :=
        { warnings := !o.quiet, traces := o.trace, timings := timings }
      if switches.warnings then
        IO.eprint ((Notice.warning "serving requests from standard input").line "Main" 1)
      serve { site := site, switches := switches, pools := Pools.new settings 1 }
      return 0

end HtmlTemplate.Main

open HtmlTemplate.Main in
def main (args : List String) : IO UInt32 := do
  match Options.ofArgs {} args with
  | .error message =>
    IO.eprintln ("Error: " ++ message)
    return 2
  | .ok options => run options
