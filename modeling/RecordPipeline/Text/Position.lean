/-!
Lines and columns of a text, both counted from one. Only a line feed begins a new line.
-/

namespace RecordPipeline.Text

structure Position where
  line : Nat
  column : Nat
deriving DecidableEq, Repr

namespace Position

def start : Position := ⟨1, 1⟩

def past (position : Position) (c : Char) : Position :=
  if c = '\n' then ⟨position.line + 1, 1⟩ else ⟨position.line, position.column + 1⟩

def within (text : String) (offset : Nat) : Position :=
  (text.toList.take offset).foldl past start

end Position

end RecordPipeline.Text
