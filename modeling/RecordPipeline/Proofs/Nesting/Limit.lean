import RecordPipeline.Proofs.Grammar.Correspondence
import RecordPipeline.Proofs.Grammar.Respelling

/-!
The limit on nesting is all that fewer levels change. A parser with fewer levels left does the same
as one with more until it has none and something opens another; then it stops, and says so: that is a
correspondence of the two. So a text that spells a tree of any depth is read as that tree or refused for
its depth.
-/

namespace RecordPipeline

open RecordPipeline.Grammar

namespace Parser

variable {α β : Type}

/-- Everywhere, the first parser does as the second or stops because the text is nested too deeply. -/
def Curtails (p q : Parser α) : Prop :=
  ∀ s, p s = q s ∨ ∃ offset t, p s = (.error ⟨.nestedTooDeeply, offset⟩, t)

def mapped (f : α → β) (p : Parser α) : Parser β := fun s =>
  ((p s).1.map f, (p s).2)

namespace Curtails

theorem tooDeep (f : α → β) (q : Parser β) : Curtails (mapped f Parser.tooDeep) q :=
  fun s => .inr ⟨s.current.offset, s, rfl⟩

theorem bind {γ δ : Type} {f : α → β} {g : γ → δ} {p : Parser α} {q : Parser β} {k : α → Parser γ}
    {l : β → Parser δ} (first : Curtails (mapped f p) q)
    (rest : ∀ a, Curtails (mapped g (k a)) (l (f a))) : Curtails (mapped g (p >>= k)) (q >>= l) := by
  intro s
  have first := first s
  simp only [mapped, bind_apply] at first ⊢
  generalize p s = run at first ⊢
  obtain ⟨outcome, t⟩ := run
  cases outcome with
  | ok a =>
    rcases first with same | ⟨_, _, stopped⟩
    · rw [← same]
      exact rest a t
    · cases stopped
  | error fault =>
    rcases first with same | ⟨offset, u, stopped⟩
    · rw [← same]
      exact .inl rfl
    · cases stopped
      exact .inr ⟨offset, t, rfl⟩

end Curtails

def curtailed : Correspondence TokenStream TokenStream where
  node := id
  place := id
  holds f p q := Curtails (mapped f p) q
  branch := branch_map_id
  named := bareName?_id
  value same _ := .inl (by rw [← same]; rfl)
  bind := Curtails.bind
  peek rest s := rest s.kind s
  peekPair _ _ rest s := rest _ s
  offset _ := .inl rfl
  take _ := .inl rfl
  failAt _ _ _ _ := .inl rfl
  unexpected _ _ _ := .inl rfl
  bounded rest s := rest s.later s.later rfl s

theorem level_curtails {levels more : Nat} (le : levels ≤ more) :
    curtailed.Levels (level levels) (level more) := by
  induction levels generalizing more with
  | zero => exact ⟨.tooDeep _ _, .tooDeep _ _, .tooDeep _ _⟩
  | succ levels ih =>
    obtain ⟨more, rfl⟩ : ∃ m, more = m + 1 := ⟨more - 1, by omega⟩
    exact (ih (Nat.le_of_succ_le_succ le)).succ

theorem query_curtails {levels : Nat} (le : maxNesting ≤ levels) :
    Curtails (mapped id query) (queryWithin levels) :=
  (level_curtails le).query

end Parser

/-- A text of the tokens of an expression is read as that expression, or it is nested too deeply. -/
theorem parse_of_spells_or_deep {n : Nat} {text : String} {e : Node}
    (h : Parses n (.symbol .expression) [e]) (spelled : Spells text.toList e.tokens) :
    (Expr.parse text).toOption = e.lower.toOption ∨
      ∃ error, Expr.parse text = .error error ∧ error.cause = .nestedTooDeeply := by
  -- With as many levels as the tree needs the query is read; the parser has no more than those.
  obtain ⟨query, parses, tokens, lowers⟩ :=
    query_of_spells (h.mono (Nat.le_max_left n Parser.maxNesting)) spelled
  have wider := queryWithin_completes parses
  rcases Parser.query_curtails (Nat.le_max_right n Parser.maxNesting) (.ofTokens query.tokens) with
    same | ⟨offset, t, stopped⟩
  · rw [← same, Parser.mapped, Except.map_id] at wider
    have read : parseQuery text = .ok query := (parse_ok tokens).2 wider
    left
    rw [Expr.parse, toOption_locate, read]
    exact lowers
  · have stopped := congrArg Prod.fst stopped
    rw [Parser.mapped, Except.map_id] at stopped
    have refused : parseQuery text = .error ⟨.nestedTooDeeply, offset⟩ := by
      rw [parseQuery, Parser.parse, tokens]
      exact stopped
    right
    rw [Expr.parse, refused]
    exact ⟨_, rfl, rfl⟩

end RecordPipeline
