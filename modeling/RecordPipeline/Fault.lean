import RecordPipeline.Text.Position

/-!
What can be wrong with the text of a query, and where. A fault knows its cause and how many
characters lie before it; a syntax error is a fault placed in its text by line and column.
-/

namespace RecordPipeline

inductive Cause where
  | unclosedString
  | malformedNumber (text : String)
  | bareFraction
  | loneBang
  | strayCharacter (c : Char)
  | nestedTooDeeply
  | expected (wanted : String) (found : Option String)
  | bindingName
  | invalidFloat (text : String)
  | misplaced
deriving DecidableEq, Repr

namespace Cause

def message : Cause → String
  | unclosedString => "Unterminated string: missing closing quote"
  | malformedNumber text => "Invalid number literal '" ++ text ++ "'"
  | bareFraction => "Number literals must start with a digit"
  | loneBang => "Unexpected '!' (did you mean '!=' or 'not'?)"
  | strayCharacter c => "Unexpected character '" ++ c.toString ++ "'"
  | nestedTooDeeply => "Expression is nested too deeply"
  | expected wanted (some found) => "Expected " ++ wanted ++ ", found '" ++ found ++ "'"
  | expected wanted none => "Expected " ++ wanted ++ ", found end of input"
  | bindingName => "Keyword argument name must be an identifier"
  | invalidFloat text => "Invalid float '" ++ text ++ "'"
  | misplaced => "Misplaced part of an expression"

end Cause

structure Fault where
  cause : Cause
  offset : Nat
deriving DecidableEq, Repr

structure SyntaxError where
  cause : Cause
  offset : Nat
  position : Text.Position
deriving DecidableEq, Repr

def Fault.within (fault : Fault) (source : String) : SyntaxError :=
  ⟨fault.cause, fault.offset, Text.Position.within source fault.offset⟩

namespace SyntaxError

def message (e : SyntaxError) : String :=
  e.cause.message

def text (e : SyntaxError) : String :=
  e.message ++ " (line " ++ toString e.position.line ++ ", column " ++
    toString e.position.column ++ ", offset " ++ toString e.offset ++ ")"

end SyntaxError

def locate {α : Type} (source : String) (result : Except Fault α) : Except SyntaxError α :=
  result.mapError (·.within source)

@[simp] theorem locate_ok {α : Type} (source : String) (a : α) :
    locate source (.ok a) = .ok a := rfl

@[simp] theorem locate_error {α : Type} (source : String) (fault : Fault) :
    (locate source (.error fault) : Except SyntaxError α) = .error (fault.within source) := rfl

end RecordPipeline
