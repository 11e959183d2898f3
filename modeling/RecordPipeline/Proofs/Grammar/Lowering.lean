import RecordPipeline.Pipeline
import RecordPipeline.Proofs.Grammar.Places
import RecordPipeline.Proofs.Lexing.Joining

/-!
Lowering one part after another. The trailers of an access are lowered each on its own and put onto
its atom in their order, and the arguments of a call and the fields of an object are lowered each on
its own as well.
-/

namespace RecordPipeline

def Trailer.onto (object : Expr) : Trailer → Expr
  | attr name => .attr object name
  | index key => .index object key
  | call args named => .call object args named

namespace Node

def lowerCall : List Node → Except Fault (List Expr × List (String × Expr))
  | [_] => .ok ([], [])
  | [branch _ content, _] => (lowerArguments content).map Argument.split
  | _ => misplaced

def lowerOpened : TokenKind → List Node → Except Fault Trailer
  | .openParen, parts => (lowerCall parts).map fun (args, named) => .call args named
  | .openBracket, [index, _] => (lower index).map .index
  | .dot, [leaf name] => .ok (.attr name.text)
  | _, _ => misplaced

def lowerTrailer : Node → Except Fault Trailer
  | branch _ (leaf opening :: parts) => lowerOpened opening.kind parts
  | _ => misplaced

theorem map_bind {α β γ : Type} (x : Except Fault α) (f : α → β) (g : β → Except Fault γ) :
    (x.map f >>= g) = x >>= fun a => g (f a) := by
  cases x <;> rfl

theorem lowerTrailers_onto (object : Expr) (trailer : Node) (later : List Node) :
    lowerTrailers object (trailer :: later) =
      lowerTrailer trailer >>= fun first => lowerTrailers (first.onto object) later := by
  rcases trailer with t | ⟨rule, _ | ⟨opening | ⟨rule', inside⟩, parts⟩⟩
  · simp [lowerTrailers, lowerTrailer, misplaced, bind, Except.bind]
  · simp [lowerTrailers, lowerTrailer, misplaced, bind, Except.bind]
  · rw [lowerTrailers_cons, lowerTrailer]
    cases opening.kind with
    | openParen =>
      rcases parts with _ | ⟨first, _ | ⟨second, _ | ⟨third, more⟩⟩⟩
      · rfl
      · rfl
      · cases first with
        | leaf t => rfl
        | branch rule' content =>
          simp only [lowerOpened, lowerCall, map_bind]
          rfl
      · cases first <;> rfl
    | openBracket =>
      rcases parts with _ | ⟨first, _ | ⟨second, _ | ⟨third, more⟩⟩⟩
      · rfl
      · rfl
      · simp only [lowerOpened, map_bind]
        rfl
      · rfl
    | dot =>
      rcases parts with _ | ⟨first, _ | ⟨second, more⟩⟩
      · rfl
      · cases first <;> rfl
      · cases first <;> rfl
    | _ => rfl
  · simp [lowerTrailers, lowerTrailer, misplaced, bind, Except.bind]

/-- An access is its atom with its trailers put onto it one after the other. -/
theorem lowerTrailers_eq_foldl (object : Expr) (trailers : List Node) :
    lowerTrailers object trailers =
      (trailers.mapM lowerTrailer).map fun written => written.foldl Trailer.onto object := by
  induction trailers generalizing object with
  | nil =>
    rw [lowerTrailers]
    rfl
  | cons trailer later ih =>
    rw [lowerTrailers_onto, List.mapM_cons]
    cases lowerTrailer trailer with
    | error fault => rfl
    | ok first =>
      change lowerTrailers (first.onto object) later = _
      rw [ih]
      cases later.mapM lowerTrailer <;> rfl

end Node

theorem lowerArguments_comma {t : Token} (comma : t.kind = .comma) (later : List Node) :
    Node.lowerArguments (.leaf t :: later) = Node.lowerArguments later := by
  rw [Node.lowerArguments_positional (fun _ _ _ same => by cases same)]
  simp [Node.kind?, comma]

theorem lowerArguments_cons (node : Node) (later : List Node) :
    Node.lowerArguments (node :: later) = do
      let first ← Node.lowerArguments [node]
      return first ++ (← Node.lowerArguments later) := by
  by_cases positional : node.IsPositional
  · rw [Node.lowerArguments_positional positional, Node.lowerArguments_positional positional]
    split
    · simp [Node.lowerArguments, bind, Except.bind, pure, Except.pure]
      cases Node.lowerArguments later <;> rfl
    · cases node.lower with
      | error fault => rfl
      | ok e => simp [Node.lowerArguments, bind, Except.bind, pure, Except.pure]
  · obtain ⟨name, sign, value, rfl⟩ : ∃ name sign value,
        node = .branch .binding [name, sign, value] := by
      simpa [Node.IsPositional] using positional
    rw [Node.lowerArguments, Node.lowerArguments]
    cases value.lower with
    | error fault => rfl
    | ok e => simp [Node.lowerArguments, bind, Except.bind, pure, Except.pure]

theorem lowerArguments_behindCommas (nodes : List Node) :
    Node.lowerArguments (behindCommas (nodes.map List.singleton)) = Node.lowerArguments nodes := by
  induction nodes with
  | nil => rfl
  | cons node later ih =>
    rw [List.map_cons, behindCommas_cons, lowerArguments_comma rfl, List.singleton, List.singleton_append,
      lowerArguments_cons node (behindCommas _), lowerArguments_cons node later, ih]

namespace Node

def lowerKey (key : Node) : Except Fault Expr :=
  match key.bareName? with
  | some name => .ok (.string name)
  | none => key.lower

theorem lowerFields_last (key colon value : Node) :
    lowerFields [key, colon, value] = do
      let k ← lowerKey key
      return [(k, ← value.lower)] := by
  rw [lowerFields, lowerKey]
  cases key.bareName? <;> rfl

theorem lowerFields_more (key colon value comma : Node) (later : List Node) :
    lowerFields (key :: colon :: value :: comma :: later) = do
      let k ← lowerKey key
      let v ← value.lower
      return (k, v) :: (← lowerFields later) := by
  rw [lowerFields, lowerKey]
  cases key.bareName? <;> rfl

end Node

end RecordPipeline
