import ScriptEngine.Syntax.Outline
import ScriptEngine.Syntax.Same
import ScriptEngine.Syntax.Statement
import ScriptEngine.Token.Scan

/-!
# Programs

A program is a block that covers all tokens before the end of input. It can be read from any list of
tokens; the text of a source is scanned first. The text of a node can be read again, and that gives
back the node.
-/

namespace ScriptEngine

open Text SyntaxError Parse

namespace Program

def statements (s : Token.Stream) : Except Fault (List Stmt) :=
  let depth := s.tokens.size + 1
  match (manyUntil (· == .endOfInput) (Grammar.upTo depth).statement depth).run s |>.run 0 with
  | .ok (body, _) => .ok body
  | .error fault => .error fault

def ofStream (s : Token.Stream) : Except Fault Block :=
  match statements s with
  | .ok body =>
    let span := (s.get 0).span.merge (s.get s.last).span
    .ok (.mk ⟨span, Token.Slice.clamp s.tokens 0 s.last⟩ body)
  | .error fault => .error fault

def ofTokens (tokens : List Token) (source : Source) : Except SyntaxError Block :=
  match ofStream (Token.Stream.ofTokens tokens.toArray source.endPosition) with
  | .ok program => .ok program
  | .error fault => .error (fault.report source)

def ofSource (source : Source) : Except SyntaxError Block :=
  match Token.scanSource source with
  | .ok tokens => ofTokens tokens source
  | .error e => .error e

end Program

def unnamedSource : String :=
  "<input>"

namespace Outline

/-- What came out of reading the text of a node again. -/
inductive Verdict where
  | same
  | different
  | refused (e : SyntaxError)

def only? (program : Block) : Option Stmt :=
  match program.statements with
  | [s] => some s
  | _ => none

def verdictOf (text : String) (agrees : Stmt → Bool) : Verdict :=
  match Program.ofSource ⟨unnamedSource, text⟩ with
  | .error e => .refused e
  | .ok program =>
    match only? program with
    | some s => if agrees s then .same else .different
    | none => .different

def agreesWithExpr (e : Expr) : Stmt → Bool
  | .expression _ e' => e'.same e
  | _ => false

def Entry.reread? (entry : Entry) : Option (String × Verdict) :=
  match entry.subject with
  | .statement s | .initialiser s => some (entry.text, verdictOf entry.text (·.same s))
  | .expression e =>
    let text := "(" ++ entry.text ++ ")"
    some (text, verdictOf text (agreesWithExpr e))
  | _ => none

end Outline

end ScriptEngine
