import ScriptEngine.Engine.Config
import ScriptEngine.Evaluation.Call
import ScriptEngine.Prelude
import ScriptEngine.Syntax.Program

/-!
# The engine

An engine is a configuration and a machine. Each run scans, parses and evaluates a source text on
the machine that the runs before have left.
-/

namespace ScriptEngine

open Text

def version : String :=
  "0.1.1"

structure Engine where
  config : Config
  machine : Machine

inductive EngineError where
  | refused (e : SyntaxError)
  | failed (f : Failure)

namespace EngineError

def render (e : EngineError) (h : Heap) : String :=
  match e with
  | .refused e => e.render
  | .failed f => f.render h

def isThrown : EngineError → Bool
  | .failed (.thrown _) => true
  | _ => false

end EngineError

namespace Engine

/-- More calls in each other and rounds of a loop than any run comes to. -/
def ampleFuel : Nat := 1099511627776

def new (config : Config) : Engine :=
  ⟨config, Machine.start config.prelude config.maxCallDepth⟩

instance : Inhabited Engine := ⟨new default⟩

def parse (e : Engine) (text : String) : Except SyntaxError Block :=
  Program.ofSource ⟨e.config.sourceName, text⟩

def run {α : Type} (e : Engine) (action : Eval α) : Except Failure α × Engine :=
  match e with
  | ⟨config, machine⟩ =>
    match action machine with
    | .ok a m => (.ok a, ⟨config, m⟩)
    | .error f m => (.error f, ⟨config, m⟩)

def evalWith (fuel : Nat) (e : Engine) (text : String) : Except EngineError Value × Engine :=
  match e.parse text with
  | .error refusal => (.error (.refused refusal), e)
  | .ok program =>
    match e.run (Eval.runProgram fuel program) with
    | (.ok v, e) => (.ok v, e)
    | (.error f, e) => (.error (.failed f), e)

def eval (e : Engine) (text : String) : Except EngineError Value × Engine :=
  evalWith ampleFuel e text

def getGlobal (e : Engine) (name : String) : Except Failure Value × Engine :=
  e.run do
    match ← Eval.reading fun m => m.scopes.get 0 name with
    | .ok v => return v
    | .error error => Eval.throwScopeError error

def getValue (e : Engine) (name : String) : Value :=
  (e.machine.scopes.lookup? e.machine.current name).getD .undefined

def globalNames (e : Engine) : List String :=
  e.machine.scopes.names 0

def callDepth (e : Engine) : Nat :=
  e.machine.frames.length

def defineHost (e : Engine) (name : String) (f : HostFunction) : Engine :=
  { e with machine := e.machine.addGlobal name (.host f) }

def call (e : Engine) (callee receiver : Value) (args : List Value) :
    Except Failure Value × Engine :=
  e.run (Eval.callValue (Eval.invoke ampleFuel) callee receiver args)

end Engine

def evalOnce (text : String) : Except EngineError Value × Engine :=
  (Engine.new Config.standard).eval text

end ScriptEngine
