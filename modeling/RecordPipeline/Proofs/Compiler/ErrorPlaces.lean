import RecordPipeline.Proofs.Compiler.StageCalls
import RecordPipeline.Proofs.Grammar.Offsets
import RecordPipeline.Proofs.Lowering.Faults

/-!
Where compile errors point. A query that cannot be read is at fault at one of its characters, or at the
comma behind it, or where that ends. Once it has been read, only texts put together from its tokens are
read again, the parameters of calls and the insides of indices, and an error in one of them points into
that text.
-/

namespace RecordPipeline

open RecordPipeline.Compiler

section Sequences

variable {ε α β : Type} {e : ε}

theorem except_bind_error {x : Except ε α} {f : α → Except ε β} (h : (x >>= f) = .error e) :
    x = .error e ∨ ∃ a, x = .ok a ∧ f a = .error e := by
  cases x with
  | error other =>
    cases h
    exact .inl rfl
  | ok a => exact .inr ⟨a, rfl, h⟩

theorem except_map_error {x : Except ε α} {f : α → β} (h : x.map f = .error e) : x = .error e := by
  cases x with
  | error other =>
    cases h
    rfl
  | ok a => cases h

theorem mapM_error {f : α → Except ε β} {list : List α} (h : list.mapM f = .error e) :
    ∃ a ∈ list, f a = .error e := by
  induction list with
  | nil => cases h
  | cons a list ih =>
    rw [List.mapM_cons] at h
    rcases except_bind_error h with here | ⟨b, -, h⟩
    · exact ⟨a, List.mem_cons_self .., here⟩
    · rcases except_bind_error h with later | ⟨bs, -, h⟩
      · obtain ⟨other, member, failed⟩ := ih later
        exact ⟨other, List.mem_cons_of_mem a member, failed⟩
      · cases h

theorem foldlM_error {f : β → α → Except ε β} {list : List α} {start : β}
    (h : list.foldlM f start = .error e) : ∃ a ∈ list, ∃ b, f b a = .error e := by
  induction list generalizing start with
  | nil => cases h
  | cons a list ih =>
    rw [List.foldlM_cons] at h
    rcases except_bind_error h with here | ⟨b, -, later⟩
    · exact ⟨a, List.mem_cons_self .., start, here⟩
    · obtain ⟨other, member, failed⟩ := ih later
      exact ⟨other, List.mem_cons_of_mem a member, failed⟩

end Sequences

section Texts

variable {source : String} {e : SyntaxError}

/-- The error lies in the text, or where it ends, at the line and column of its offset. -/
def SyntaxError.PointsInto (e : SyntaxError) (source : String) : Prop :=
  e.offset ≤ source.length ∧ e.position = Text.Position.within source e.offset

theorem fault_of_locate {α : Type} {x : Except Fault α} (h : locate source x = .error e) :
    ∃ fault, x = .error fault ∧ fault.within source = e := by
  cases x with
  | ok a => cases h
  | error fault => exact ⟨fault, rfl, Except.error.inj h⟩

theorem pointsInto_of_le {fault : Fault} (le : fault.offset ≤ source.length) :
    (fault.within source).PointsInto source :=
  ⟨le, rfl⟩

theorem pointsInto_of_parseQuery (h : locate source (parseQuery source) = .error e) :
    e.PointsInto source := by
  obtain ⟨fault, failed, rfl⟩ := fault_of_locate h
  exact pointsInto_of_le (offset_le_of_parse (Parser.query_points _) failed)

theorem Settles.offset_le {α : Type} {ts : List Token} {x : Except Fault α} {fault : Fault} {last : Nat}
    (h : Settles ts x) (failed : x = .error fault) (inside : ∀ t ∈ ts, t.offset ≤ last) :
    fault.offset ≤ last := by
  cases h with
  | value none => cases failed
  | fault first =>
    cases failed
    exact inside _ (List.mem_of_find?_eq_some first)

theorem pointsInto_of_parse (h : Expr.parse source = .error e) : e.PointsInto source := by
  obtain ⟨fault, failed, rfl⟩ := fault_of_locate h
  refine pointsInto_of_le ?_
  rcases except_bind_error failed with unread | ⟨tree, read, unlowered⟩
  · exact offset_le_of_parse (Parser.query_points _) unread
  · exact (query_settles read).offset_le unlowered
      (offset_le_of_tokenize (tokenize_of_parseQuery read))

theorem pointsInto_of_parseArguments (h : Expr.parseArguments source = .error e) :
    e.PointsInto source := by
  obtain ⟨fault, failed, rfl⟩ := fault_of_locate h
  refine pointsInto_of_le ?_
  rcases except_bind_error failed with unread | ⟨tree, read, unlowered⟩
  · exact offset_le_of_parse (Parser.arguments_points _) unread
  · obtain ⟨-, last, -, tokenized⟩ := parseArguments_sound read
    exact (argumentList_settles read).offset_le unlowered fun t member =>
      offset_le_of_tokenize tokenized t (List.mem_append_left _ member)

end Texts

inductive TokenTree.Within : TokenTree → TokenTree → Prop where
  | root {tree : TokenTree} : TokenTree.Within tree tree
  | child {tree part : TokenTree} {children : List TokenTree} (member : part ∈ children)
      (inside : TokenTree.Within tree part) : TokenTree.Within tree (.group children)

theorem TokenTree.Within.of_children {tree part whole : TokenTree} (member : part ∈ whole.children)
    (inside : tree.Within part) : tree.Within whole := by
  cases whole with
  | token text => cases member
  | group children => exact .child member inside

theorem TokenTree.Within.trans {tree part whole : TokenTree} (inside : tree.Within part)
    (h : part.Within whole) : tree.Within whole := by
  induction h with
  | root => exact inside
  | child member _ ih => exact .child member ih

/-- The tree stands alone between the first and the last part of the other. -/
def TokenTree.Encloses (part inner : TokenTree) : Prop :=
  ∃ opening closing, part.children = [opening, inner, closing]

/-- A text that is put together from a tree and then not read: one of its parameters, all of them with
commas between, or its tokens as an expression. -/
inductive Compiler.Rereads (inner : TokenTree) (e : SyntaxError) : String → Prop where
  | parameter {text : String} (member : text ∈ inner.parameterTexts)
      (failed : Expr.parseArguments text = .error e) : Rereads inner e text
  | parameters (failed : Expr.parseArguments (String.intercalate "," inner.parameterTexts) = .error e) :
      Rereads inner e (String.intercalate "," inner.parameterTexts)
  | index (failed : Expr.parse (joinTokens inner.flatten) = .error e) :
      Rereads inner e (joinTokens inner.flatten)

namespace Compiler

variable {e : SyntaxError} {text : String} {inner tree part : TokenTree}

theorem Rereads.pointsInto (h : Rereads inner e text) : e.PointsInto text := by
  cases h with
  | parameter _ failed => exact pointsInto_of_parseArguments failed
  | parameters failed => exact pointsInto_of_parseArguments failed
  | index failed => exact pointsInto_of_parse failed

theorem malformed_error {α : Type} {x : Except SyntaxError α}
    (h : malformed x = .error (.malformed e)) : x = .error e := by
  cases x with
  | ok a => cases h
  | error other =>
    cases h
    rfl

def syntaxError? : Except CompileError Pipeline → Option SyntaxError
  | .error (.malformed e) => some e
  | _ => none

theorem syntaxError?_eq_some {x : Except CompileError Pipeline} :
    syntaxError? x = some e ↔ x = .error (.malformed e) := by
  rw [syntaxError?.eq_def]
  split <;> simp_all

theorem parseParameters_error {texts : List String} (h : parseParameters texts = .error e) :
    ∃ text ∈ texts, Expr.parseArguments text = .error e := by
  induction texts with
  | nil => cases h
  | cons text later ih =>
    have rest (h : parseParameters later = .error e) :
        ∃ other ∈ text :: later, Expr.parseArguments other = .error e := by
      obtain ⟨other, member, failed⟩ := ih h
      exact ⟨other, List.mem_cons_of_mem text member, failed⟩
    rw [parseParameters] at h
    split at h
    · exact rest h
    · rcases except_bind_error h with here | ⟨_, -, h⟩
      · exact ⟨text, List.mem_cons_self .., here⟩
      · rcases except_bind_error h with behind | ⟨_, -, h⟩
        · exact rest behind
        · cases h

theorem invocationOf_error {texts : List String} (h : invocationOf texts = .error e) :
    ∃ text ∈ texts, Expr.parseArguments text = .error e := by
  rw [invocationOf] at h
  split at h
  · cases h
  · exact parseParameters_error (except_map_error h)

theorem parametersOf_cases (part : TokenTree) :
    (∃ inner, part.Encloses inner ∧ parametersOf part = inner.parameterTexts) ∨
      parametersOf part = [""] := by
  rw [parametersOf]
  split
  · rename_i opening inner closing children
    exact .inl ⟨inner, ⟨opening, closing, children⟩, rfl⟩
  · exact .inr rfl

theorem addCall_error {draft : Draft} (h : draft.addCall part = .error (.malformed e)) :
    ∃ inner text, part.Encloses inner ∧ Rereads inner e text := by
  rw [Draft.addCall] at h
  rcases parametersOf_cases part with ⟨inner, encloses, same⟩ | same
  · rw [same] at h
    split at h
    · rcases except_bind_error h with failed | ⟨_, -, h⟩
      · obtain ⟨text, member, failed⟩ := invocationOf_error (malformed_error failed)
        exact ⟨inner, text, encloses, .parameter member failed⟩
      · cases h
    · rcases except_bind_error h with failed | ⟨_, -, h⟩
      · exact ⟨inner, _, encloses, .parameters (malformed_error failed)⟩
      · cases h
  · rw [same] at h
    split at h
    · cases h
    · cases h

theorem addAttribute_error {draft : Draft} : draft.addAttribute part ≠ .error (.malformed e) := by
  intro h
  rw [Draft.addAttribute] at h
  split at h
  · cases h
  · split at h <;> cases h

theorem addIndex_error {draft : Draft} (h : draft.addIndex part = .error (.malformed e)) :
    ∃ inner text, part.Encloses inner ∧ Rereads inner e text := by
  rw [Draft.addIndex] at h
  split at h
  · rename_i opening inner closing _ children
    rcases except_bind_error h with failed | ⟨_, -, h⟩
    · exact ⟨inner, _, ⟨opening, closing, children⟩, .index (malformed_error failed)⟩
    · cases h
  · cases h

theorem add_error {draft : Draft} (h : draft.add part = .error (.malformed e)) :
    ∃ inner text, part.Encloses inner ∧ Rereads inner e text := by
  rw [Draft.add] at h
  split at h
  · exact addCall_error h
  split at h
  · exact absurd h addAttribute_error
  split at h
  · exact addIndex_error h
  · cases h

theorem stageCall_error {first : TokenTree} {parts : List TokenTree}
    (h : stageCall (first :: parts) = .error (.malformed e)) :
    ∃ part ∈ parts, ∃ inner text, part.Encloses inner ∧ Rereads inner e text := by
  rw [stageCall] at h
  split at h
  · cases h
  · rcases except_bind_error h with failed | ⟨draft, -, h⟩
    · obtain ⟨part, member, _, failed⟩ := foldlM_error failed
      exact ⟨part, member, add_error failed⟩
    · rw [Draft.finish] at h
      split at h <;> cases h

theorem within_of_encloses (member : part ∈ tree.children) (encloses : part.Encloses inner) :
    inner.Within tree := by
  obtain ⟨opening, closing, parts⟩ := encloses
  have inside : inner ∈ part.children := by simp [parts]
  exact .of_children member (.of_children inside .root)

/-- What stands in brackets behind the name of a stage is the tree itself or stands in it. -/
theorem within_of_asStageCall {first : TokenTree} {parts : List TokenTree}
    (call : (asStageCall tree).children = first :: parts) (member : part ∈ parts)
    (encloses : part.Encloses inner) : inner.Within tree := by
  have wrapped {stage : String} (call : (wrap stage tree).children = first :: parts) :
      inner.Within tree := by
    obtain ⟨opening, closing, inside⟩ := encloses
    cases call
    rw [List.mem_singleton.1 member] at inside
    cases inside
    exact .root
  rw [asStageCall] at call
  split at call
  · exact wrapped call
  split at call
  · obtain ⟨opening, closing, inside⟩ := encloses
    cases call
    rw [List.mem_singleton.1 member] at inside
    exact .of_children (by simp [inside]) .root
  split at call
  · refine within_of_encloses ?_ encloses
    rw [call]
    exact List.mem_cons_of_mem first member
  · exact wrapped call

theorem stageOf_error (h : stageOf tree = .error (.malformed e)) :
    ∃ inner text, inner.Within tree ∧ Rereads inner e text := by
  rw [stageOf] at h
  split at h
  · cases h
  dsimp only at h
  split at h
  · cases h
  · rename_i long
    obtain ⟨first, parts, call⟩ := List.exists_cons_of_length_pos (l := (asStageCall tree).children)
      (by omega)
    rw [stageCall_foldMethod, call] at h
    obtain ⟨part, member, inner, text, encloses, rereads⟩ := stageCall_error (except_map_error h)
    exact ⟨inner, text, within_of_asStageCall call member encloses, rereads⟩

theorem candidates_error : candidates tree ≠ .error (.malformed e) := by
  intro h
  rw [candidates.eq_def] at h
  split at h <;> cases h

theorem within_of_candidates {trees : List TokenTree} (h : candidates tree = .ok trees)
    (member : part ∈ trees) : part.Within tree := by
  rw [candidates.eq_def] at h
  split at h
  · rename_i content later
    cases h
    exact .child (List.mem_cons_self ..) (.of_children (List.mem_filter.1 member).1 .root)
  · cases h

end Compiler

/-- A compile error of syntax is that of the query with a comma behind it, or that of a text put
together from a part of it; it lies in that text, or where it ends. -/
theorem compile_error_places {query : String} {e : SyntaxError}
    (failed : compile query = .error (.malformed e)) :
    (locate (query ++ ",") (parseQuery (query ++ ",")) = .error e ∧
      e.PointsInto (query ++ ",") ∧ (e.offset ≤ query.length → e.PointsInto query)) ∨
    ∃ node inner text, parseQuery (query ++ ",") = .ok node ∧ inner.Within node.tokenTree ∧
      Rereads inner e text ∧ e.PointsInto text := by
  rw [compile] at failed
  rcases except_bind_error failed with unread | ⟨node, read, failed⟩
  · left
    have unread := malformed_error unread
    obtain ⟨le, position⟩ := pointsInto_of_parseQuery unread
    refine ⟨unread, ⟨le, position⟩, fun early => ⟨early, ?_⟩⟩
    rw [position, Text.Position.within, Text.Position.within, String.toList_append,
      List.take_append_of_le_length (by rwa [String.length_toList])]
  · right
    have tree : parseQuery (query ++ ",") = .ok node := by
      cases parsed : parseQuery (query ++ ",") with
      | ok other =>
        rw [parsed] at read
        cases read
        rfl
      | error fault =>
        rw [parsed] at read
        cases read
    rcases except_bind_error failed with ambiguous | ⟨trees, parts, failed⟩
    · exact absurd ambiguous candidates_error
    rcases except_bind_error failed with failed | ⟨stages, -, failed⟩
    · obtain ⟨part, member, failed⟩ := mapM_error failed
      obtain ⟨inner, text, inside, rereads⟩ := stageOf_error failed
      exact ⟨node, inner, text, tree, inside.trans (within_of_candidates parts member), rereads,
        rereads.pointsInto⟩
    · cases failed

/-- A list of parameters that is put together with other white space than it was written with. -/
theorem compile_error_places_parameter :
    ∃ e, compile "map(x, y=1e5e5)" = .error (.malformed e) ∧ e.offset = 6 ∧
      ∃ node inner text, parseQuery "map(x, y=1e5e5)," = .ok node ∧ inner.Within node.tokenTree ∧
        Rereads inner e text ∧ e.PointsInto text := by
  have failed : compile "map(x, y=1e5e5)" =
      .error (.malformed ⟨.invalidFloat "1e5e5", 6, ⟨1, 7⟩⟩) :=
    syntaxError?_eq_some.1 (by decide +kernel)
  have read : (parseQuery "map(x, y=1e5e5),").isOk = true := by decide +kernel
  refine ⟨_, failed, rfl, ?_⟩
  rcases compile_error_places failed with ⟨unread, -⟩ | places
  · obtain ⟨fault, unread, -⟩ := fault_of_locate unread
    have unread : parseQuery "map(x, y=1e5e5)," = .error fault := unread
    rw [unread] at read
    cases read
  · exact places

/-- A text that is put together may be longer than the query, or have another layout, and the end of
the input lies behind the comma. -/
theorem compile_error_beyond_query :
    (∃ e, compile "x+x+x+1e5e5" = .error (.malformed e) ∧ "x+x+x+1e5e5".length < e.offset) ∧
      (∃ e, compile "(x" = .error (.malformed e) ∧ "(x".length < e.offset) ∧
      ∃ e, compile "x\n+1e5e5" = .error (.malformed e) ∧
        e.position ≠ Text.Position.within "x\n+1e5e5" e.offset := by
  have longer : compile "x+x+x+1e5e5" =
      .error (.malformed ⟨.invalidFloat "1e5e5", 12, ⟨1, 13⟩⟩) :=
    syntaxError?_eq_some.1 (by decide +kernel)
  have behind : compile "(x" = .error (.malformed ⟨.expected "expression" none, 3, ⟨1, 4⟩⟩) :=
    syntaxError?_eq_some.1 (by decide +kernel)
  have moved : compile "x\n+1e5e5" = .error (.malformed ⟨.invalidFloat "1e5e5", 4, ⟨1, 5⟩⟩) :=
    syntaxError?_eq_some.1 (by decide +kernel)
  exact ⟨⟨_, longer, by decide⟩, ⟨_, behind, by decide⟩, ⟨_, moved, by decide +kernel⟩⟩

end RecordPipeline
